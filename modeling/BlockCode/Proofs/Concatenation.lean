import BlockCode.Proofs.Machine.Truncation
import BlockCode.Proofs.Parse.Concat
import BlockCode.Proofs.Safety
import BlockCode.Proofs.Scope.Walk
import BlockCode.Proofs.Token.Concat
import BlockCode.Proofs.Totality

/-! Sources one below the other: the second one only adds to what is made of the first, to its tree,
its slots, its code and its output. -/

namespace BlockCode

open Machine Occurrence

/-- Trees in a row are gone through in a row. -/
theorem Analysis.visitAll_append (a : Analysis) (ns ms : List Node) :
    a.visitAll (ns ++ ms) = a.visitAll ns >>= (·.visitAll ms) := by
  -- The failure of a tree of the first row ends both walks.
  induction ns generalizing a with
  | nil => rfl
  | cons n ns ih =>
    simp only [List.cons_append, visitAll_cons, ih]
    cases a.visit n <;> rfl

/-- The numbers of trees in a row. -/
theorem Node.idsAll_append (ns ms : List Node) :
    Node.idsAll (ns ++ ms) = Node.idsAll ns ++ Node.idsAll ms := by
  -- The numbers of trees in turn are put behind each other.
  induction ns with
  | nil => rfl
  | cons n ns ih => simp only [List.cons_append, idsAll, ih, List.append_assoc]

/-- The slots of some statements are not touched by those behind them. -/
theorem Analysis.resolution_append {ns ms : List Node} {a₁ a : Analysis}
    (shape : ∀ n ∈ ns ++ ms, n.IsStatement) (distinct : (Node.idsAll (ns ++ ms)).Nodup)
    (first : Analysis.empty.visitAll ns = .ok a₁) (second : a₁.visitAll ms = .ok a) :
    (∀ id ∈ Node.idsAll ns, a.resolution[id]? = a₁.resolution[id]?) ∧
      ∀ id, id ∉ Node.idsAll ns → a₁.resolution[id]? = none := by
  rw [Node.idsAll_append] at distinct
  have apart := List.disjoint_of_nodup_append distinct
  have placed := Node.placedAll [] ns
  have start : Mirrors Analysis.empty [] [] := ⟨rfl, .program (.empty (by simp)), rfl⟩
  have fresh : Fresh [] [] (Node.idsAll ns ++ Node.idsAll ms) := ⟨by simp, by simp⟩
  obtain ⟨mirrors, settled⟩ := Node.resolvesAll distinct.of_append_left
    (fun n member => (shape n (List.mem_append_left _ member)).resolves) first start
    (fresh.mono (List.subset_append_left _ _))
  obtain ⟨_, settled'⟩ := Node.resolvesAll distinct.of_append_right
    (fun n member => (shape n (List.mem_append_right _ member)).resolves) second mirrors
    (fresh.behind placed apart)
  refine ⟨fun id member => settled'.others id fun there => ?_, fun id absent => ?_⟩
  · -- A place in the second part has a number of that part.
    exact apart member ((Node.placedAll [] ms).named.subset there)
  · rw [settled.others id fun there => absent (placed.named.subset there)]
    rfl

namespace Code

variable {resolution resolution' : Resolution}

/-- Code of trees in a row is emitted in a row. -/
theorem ofNodes_append (code : Code) (ns ms : List Node) :
    ofNodes resolution code (ns ++ ms) =
      ofNodes resolution code ns >>= fun code => ofNodes resolution code ms := by
  -- As for the walk, the failure of a tree of the first row ends both.
  induction ns generalizing code with
  | nil => rfl
  | cons n ns ih =>
    simp only [List.cons_append, ofNodes_cons, ih]
    cases ofNode resolution code n <;> rfl

mutual

/-- The code of a tree depends on the slots of its own nodes only. -/
theorem ofNode_congr (code : Code) : (n : Node) →
    (∀ id ∈ n.ids, resolution'[id]? = resolution[id]?) →
    ofNode resolution' code n = ofNode resolution code n
  -- The slot of a node is looked up by its own number, and only for nodes that name a variable.
  | .declare mark name, same => by
    simp only [ofNode_declare, emitSlot, Emission.emitSlot, Node.id, Node.mark,
      same mark.id (.head _)]
  | .assign mark name value, same => by
    simp only [Node.ids, List.forall_mem_cons] at same
    simp only [ofNode_assign, emitSlot, Emission.emitSlot, Node.id, Node.mark, same.1,
      ofNode_congr _ value same.2]
  | .print mark value, same => by
    simp only [Node.ids, List.forall_mem_cons] at same
    simp only [ofNode_print, ofNode_congr _ value same.2]
  | .block mark body, same => by
    simp only [Node.ids, List.forall_mem_cons] at same
    simp only [ofNode_block, ofNodes_congr _ body same.2]
  | .choose mark condition yes, same => by
    simp only [Node.ids, List.forall_mem_cons, List.forall_mem_append] at same
    simp only [ofNode_choose, ofNode_congr _ condition same.2.1, ofNode_congr _ yes same.2.2]
  | .chooseElse mark condition yes no, same => by
    simp only [Node.ids, List.forall_mem_cons, List.forall_mem_append] at same
    simp only [ofNode_chooseElse, ofNode_congr _ condition same.2.1.1,
      ofNode_congr _ yes same.2.1.2, ofNode_congr _ no same.2.2]
  | .loop mark condition body, same => by
    simp only [Node.ids, List.forall_mem_cons, List.forall_mem_append] at same
    simp only [ofNode_loop, ofNode_congr _ condition same.2.1, ofNode_congr _ body same.2.2]
  | .binary mark left operator right, same => by
    simp only [Node.ids, List.forall_mem_cons, List.forall_mem_append] at same
    simp only [ofNode_binary, ofNode_congr _ left same.2.1, ofNode_congr _ right same.2.2]
  | .use mark name, same => by
    simp only [ofNode_use, emitSlot, Emission.emitSlot, Node.id, Node.mark, same mark.id (.head _)]
  | .literal .., _ | .program .., _ | .unknown .., _ => rfl

/-- The code of some trees depends on the slots of their own nodes only. -/
theorem ofNodes_congr (code : Code) : (ns : List Node) →
    (∀ id ∈ Node.idsAll ns, resolution'[id]? = resolution[id]?) →
    ofNodes resolution' code ns = ofNodes resolution code ns
  -- The numbers of the first tree and of the others are all among those that are asked for.
  | [], _ => rfl
  | n :: ns, same => by
    simp only [Node.idsAll, List.forall_mem_append] at same
    simp only [ofNodes_cons, ofNode_congr _ n same.1, ofNodes_congr _ ns same.2]

end

/-- Code that has only been appended to begins as it did. -/
theorem Grows.isPrefix {code code' : Code} (grows : Grows code code') :
    code.toList <+: code'.toList := by
  -- Code is compared by index, and the old indices are all within the old code.
  rw [List.prefix_iff_getElem?]
  intro i inside
  rw [Array.length_toList] at inside
  have same := grows.same i (Nat.zero_le _) inside
  rw [← Array.getElem?_toList] at same
  simp [same, inside]

end Code

/-- Variables are resolved by a walk that succeeds. -/
theorem resolve_eq_ok {tree : Node} {resolution : Resolution} :
    resolve tree = .ok resolution ↔
      ∃ a, Analysis.empty.program tree = .ok a ∧ a.resolution = resolution := by
  -- What is known about the symbols is dropped.
  unfold resolve
  cases Analysis.empty.program tree <;> simp

/-- Code is generated by an emission that succeeds, and ends with a halt. -/
theorem generate_eq_ok {tree : Node} {resolution : Resolution} {code : Code} :
    generate resolution tree = .ok code ↔ ∃ front,
      Code.ofNodes resolution #[] tree.body = .ok front ∧ code = front.emit .halt none none := by
  -- The failure keeps only the defect, and the emitted code is dropped.
  rw [generate, Code.program_eq]
  cases Code.ofNodes resolution #[] tree.body <;>
    simp [Bind.bind, Except.bind, Pure.pure, Except.pure, eq_comm]

/-- Statements behind a program change neither its slots nor its code, up to the halt. -/
theorem generate_append {tree whole : Node} {more : List Node} {resolution' : Resolution}
    {code : Code} (body : whole.body = tree.body ++ more) (shape : ∀ n ∈ whole.body, n.IsStatement)
    (distinct : (Node.idsAll whole.body).Nodup) (resolved : resolve whole = .ok resolution')
    (generated : generate resolution' whole = .ok code) :
    ∃ (front : Code) (resolution : Resolution), resolve tree = .ok resolution ∧
      generate resolution tree = .ok (front.push ⟨.halt, none, none⟩) ∧
      (∀ (id slot : Int), resolution[id]? = some slot → resolution'[id]? = some slot) ∧
      Code.Grows front code ∧ front.size < code.size := by
  obtain ⟨a, analyzed, rfl⟩ := resolve_eq_ok.mp resolved
  obtain ⟨all, emitted, rfl⟩ := generate_eq_ok.mp generated
  rw [body] at shape distinct emitted
  rw [Analysis.program, body, Analysis.visitAll_append, bind_eq_ok] at analyzed
  rw [Code.ofNodes_append, bind_eq_ok] at emitted
  obtain ⟨a₁, first, second⟩ := analyzed
  obtain ⟨front, firstCode, secondCode⟩ := emitted
  obtain ⟨same, others⟩ := Analysis.resolution_append shape distinct first second
  -- The slots of the first statements are all that their code depends on.
  rw [Code.ofNodes_congr _ _ same] at firstCode
  obtain ⟨grows, _⟩ := Node.emittedAll
    (fun n member => (shape n (List.mem_append_right _ member)).emitted) secondCode
  refine ⟨front, a₁.resolution, resolve_eq_ok.mpr ⟨a₁, first, rfl⟩,
    generate_eq_ok.mpr ⟨front, firstCode, rfl⟩, ?_, grows.emit, ?_⟩
  · intro id slot known
    by_cases inside : id ∈ Node.idsAll tree.body
    · rw [same id inside, known]
    · rw [others id inside] at known
      cases known
  · have size := grows.size
    simp only [Code.emit, Array.size_push]
    omega

/-- An instruction that goes on does the same where there is more room for slots. -/
theorem Machine.execute_mono {capacity capacity' : Nat} {m m' : Machine} {i : Instruction}
    (enough : capacity ≤ capacity') (executed : m.execute capacity i = .next m') :
    m.execute capacity' i = .next m' := by
  obtain ⟨op, operand, comment⟩ := i
  cases op with
  | store =>
    -- No other instruction needs room.
    simp only [execute] at executed ⊢
    split at executed
    · cases executed
    · split at executed
      · cases executed
      · split at executed
        · cases executed
        · rename_i stored
          rwa [store?_mono enough stored]
  | halt | push | load | jump | jumpIfFalse | print | binary => exact executed

/-- An instruction that stands at the same address in longer code does the same if it goes on. -/
theorem Machine.step_congr {code code' : Code} {m m' : Machine} {address : Nat}
    (ip : m.ip = address) (same : code'[address]? = code[address]?)
    (longer : code.size ≤ code'.size) (stepped : m.step code = .next m') :
    m.step code' = .next m' := by
  -- An address that is not below zero is looked up as it is.
  have fetched (code : Code) : fetch? code address = code[address]? := by
    unfold fetch? place?
    by_cases inside : address < code.size <;> simp [inside]
  have enough : capacity code ≤ capacity code' := by
    unfold capacity
    omega
  simp only [Machine.step, ip, fetched, same] at stepped ⊢
  cases found : code[address]? with
  | none =>
    rw [found] at stepped
    cases stepped
  | some i =>
    rw [found] at stepped
    exact execute_mono enough stepped

/-- A walk through code that ends with its only halt is a walk through all code that begins in the
same way. -/
theorem Steady.walks_congr {code code' : Code} {slotCount address last k : Nat} {m m' : Machine}
    (fits : code.Fits slotCount) (size : code.size = last + 1)
    (halts : code.At last .halt none) (same : code.Same 0 last code')
    (longer : code.size ≤ code'.size) (walks : Walks code k m m')
    (steady : Steady code address m) : Walks code' k m m' := by
  induction walks generalizing address with
  | here m => exact .here m
  | @step k m m₁ m' inside stepped further ih =>
    -- A step that goes on is not the one at the halt.
    have before : address < last := by
      have below := steady.inside
      by_cases there : address = last
      · subst there
        cases stepped.symm.trans (step_halt halts steady.ip)
      · omega
    have kept := same address (Nat.zero_le _) before
    have inside' : m.ip < code'.size := by
      have there : address < code.size := steady.inside
      rw [Array.getElem?_eq_getElem there] at kept
      have within := (Array.getElem?_eq_some_iff.mp kept).1
      rw [steady.ip]
      omega
    rcases steady.step fits with ⟨m₂, address₂, stepped', steady₂⟩ | ⟨m₂, ending, stopped, _⟩
    · cases stepped.symm.trans stepped'
      exact .step inside' (step_congr steady.ip kept longer stepped) (ih steady₂)
    · cases stepped.symm.trans stopped

namespace Translation

variable {source : String} {code code' : Code}

/-- Where a run of a program halts, a run of longer code under the same cap has printed as much. -/
theorem output_prefix (t : Translation source code) (same : code.Same 0 t.last code')
    (more : code.size ≤ code'.size) {cap : Int} {r : Run} (ran : run? code cap = some r)
    (halted : r.ending = .halted) :
    ∃ r', run? code' cap = some r' ∧ r.final.output.toList <+: r'.final.output.toList := by
  have positive : 0 < cap := by
    by_contra negative
    simp [run?, negative] at ran
  simp only [run?, positive, if_true, Option.some.injEq] at ran ⊢
  refine ⟨_, rfl, ?_⟩
  have comes := comes_runFrom code cap.toNat initial
  rw [show runFrom code cap.toNat initial = r from ran] at comes
  cases comes with
  | left => cases halted
  | limited => cases halted
  | @stopped k m m' ending walks within stops =>
    cases halted
    -- A halt prints nothing, and the longer code is walked through up to there.
    have quiet : m'.output = m.output := by
      have printed := Prints.step code m
      rw [stops.stepped] at printed
      cases printed with
      | ends output _ _ _ => exact output
    have longer := t.steady_initial.walks_congr t.fits t.size t.halts same more walks
    have onward := (longer.passes (Nat.le_of_lt within)).onward
    rw [onward, quiet]
    exact Comes.output_prefix (comes_runFrom code' _ m)

/-- A run of a program is reported, unless a number has too many digits to be printed. -/
theorem reported (t : Translation source code) (compiled : compile source = .ok code) {cap : Int}
    {r : Run} (ran : run? code cap = some r) :
    runSource source cap = .ok r ∨ r.ending = .fault (.numeral .unprintable) := by
  -- A program that was compiled is run as its code is.
  have reports : runSource source cap = runCode code cap := by
    rw [runSource, compiled]
    rfl
  simp only [reports, runCode, ran]
  have positive : 0 < cap := by
    by_contra negative
    simp [run?, negative] at ran
  simp only [run?, positive, if_true, Option.some.injEq, run] at ran
  rcases t.steady_initial.runFrom t.fits cap.toNat with
    ⟨m, _, ended⟩ | ⟨k, m, m', ending, _, _, _, safe, ended⟩
  · rw [← ran, ended]
    exact .inl rfl
  · rw [← ran, ended]
    cases safe with
    | halted => exact .inl rfl
    | zeroDivisor => exact .inl rfl
    | unprintable => exact .inr rfl

end Translation

/-- Two sources that are parsed are parsed one below the other: the statements of the second follow
those of the first, with their numbers behind those of the first tree and as many lines farther down
as the first source has. If the whole compiles, so does the first source, its variables have the
same slots, its code without the halt is what the whole code begins with, and where it runs to its
halt, the whole prints at least what it does under the same cap. -/
theorem compile_concat {source source' : String} {tokens tokens' : List Token} {tree tree' : Node}
    (scanned : tokenize source = .ok tokens) (parsed : Node.parse tokens = .ok tree)
    (scanned' : tokenize source' = .ok tokens') (parsed' : Node.parse tokens' = .ok tree') :
    ∃ both whole, tokenize (source ++ "\n" ++ source') = .ok both ∧
      Node.parse both = .ok whole ∧
      whole.body = tree.body ++ tree'.body.map
        (Node.moved (.down (source.toList.count '\n' + 1) (tree.size - 1))) ∧
      ∀ code, compile (source ++ "\n" ++ source') = .ok code →
        ∃ (front : Code) (resolution resolution' : Resolution),
          compile source = .ok (front.push ⟨.halt, none, none⟩) ∧
          resolve tree = .ok resolution ∧ resolve whole = .ok resolution' ∧
          (∀ (id slot : Int), resolution[id]? = some slot → resolution'[id]? = some slot) ∧
          front.toList <+: code.toList ∧
          ∀ cap r, run? (front.push ⟨.halt, none, none⟩) cap = some r → r.ending = .halted →
            ∃ r', run? code cap = some r' ∧
              r.final.output.toList <+: r'.final.output.toList ∧
              (runSource (source ++ "\n" ++ source') cap = .ok r' ∨
                r'.ending = .fault (.numeral .unprintable)) := by
  -- The tokens of the second source stand farther down, behind those of the first.
  obtain ⟨front, mark, rfl, _, read⟩ :=
    Token.scan_break (tree.size - 1) (tokenize_eq_ok.mp scanned) (tokenize_eq_ok.mp scanned')
  have gap : tree.size - 1 + 1 = tree.size := by
    rw [Node.size_eq]
    rfl
  obtain ⟨first, joined⟩ := Node.parse_concat (scanned_tokenize scanned) parsed
    (scanned_tokenize scanned') parsed'
    (r := .down (source.toList.count '\n' + 1) (tree.size - 1)) gap
  refine ⟨_, _, tokenize_eq_ok.mpr read, joined, rfl, fun code compiled => ?_⟩
  obtain ⟨t⟩ := exists_translation compiled
  -- What was made on the way to the code is what was made of the tokens above.
  have made := compiled
  simp only [compile, bind_eq_ok] at made
  obtain ⟨_, scans, whole, parses, resolution', resolved, generated⟩ := made
  cases scans.symm.trans (tokenize_eq_ok.mpr read)
  cases parses.symm.trans joined
  obtain ⟨_, _, same, shape, distinct⟩ := Node.parse_program joined
  cases same
  rw [Node.ids, List.nodup_cons] at distinct
  obtain ⟨front, resolution, resolved₁, generated₁, kept, grows, more⟩ :=
    generate_append (rfl : (Node.program ⟨0, first⟩ _).body = tree.body ++ _) shape distinct.2
      resolved generated
  have compiled₁ : compile source = .ok (front.push ⟨.halt, none, none⟩) := by
    simp only [compile, bind_eq_ok]
    exact ⟨_, scanned, _, parsed, _, resolved₁, generated₁⟩
  refine ⟨front, resolution, resolution', compiled₁, resolved₁, resolved, kept, grows.isPrefix, ?_⟩
  intro cap r ran halted
  -- The code of the first source is the same up to its halt.
  obtain ⟨t₁⟩ := exists_translation compiled₁
  have last : t₁.last = front.size := by
    have size := t₁.size
    rw [Array.size_push] at size
    omega
  have begins : Code.Same 0 t₁.last (front.push ⟨.halt, none, none⟩) code := by
    intro i above below
    rw [grows.same i above (by omega), Array.getElem?_push_lt (by omega),
      Array.getElem?_eq_getElem]
  obtain ⟨r', ran', longer⟩ := t₁.output_prefix begins (by rwa [Array.size_push]) ran halted
  exact ⟨r', ran', longer, t.reported compiled ran'⟩

/-- A program that ends with a choice that has no alternative, and a comment. -/
def choiceSource : String := "int a;\na = 6;\nif (a > 5) print(a); // open"

/-- A program that uses a variable of the other one, and does not compile alone. -/
def sequelSource : String := "print(a + 1); \x7b int a; print(a); \x7d"

/-- The jump over the choice leads to the second program, and the run goes on there. -/
theorem compile_concat_sequel : ∃ code front : Code,
    compile (choiceSource ++ "\n" ++ sequelSource) = .ok code ∧
    compile choiceSource = .ok (front.push ⟨.halt, none, none⟩) ∧ front.toList <+: code.toList ∧
    ∃ r, run? code 100 = some r ∧ ["6"] <+: r.final.output.toList := by
  -- The run of the first program is short enough to be evaluated.
  have compiles : (compile (choiceSource ++ "\n" ++ sequelSource)).toOption.isSome = true := by
    decide +kernel
  have reads (source : String) (parses : (tokenize source >>= Node.parse).toOption.isSome = true) :
      ∃ tokens tree, tokenize source = .ok tokens ∧ Node.parse tokens = .ok tree := by
    cases read : tokenize source >>= Node.parse with
    | error e => simp [read, Except.toOption] at parses
    | ok tree =>
      obtain ⟨tokens, scanned, parsed⟩ := bind_eq_ok.mp read
      exact ⟨tokens, tree, scanned, parsed⟩
  obtain ⟨tokens, tree, scanned, parsed⟩ := reads choiceSource (by decide +kernel)
  obtain ⟨tokens', tree', scanned', parsed'⟩ := reads sequelSource (by decide +kernel)
  have ran : ((compile choiceSource).toOption.bind fun code => run? code 100).map
      (fun r => (r.ending, r.final.output.toList)) = some (.halted, ["6"]) := by decide +kernel
  cases compiled : compile (choiceSource ++ "\n" ++ sequelSource) with
  | error e => simp [compiled, Except.toOption] at compiles
  | ok code =>
    obtain ⟨_, _, _, _, _, onward⟩ := compile_concat scanned parsed scanned' parsed'
    obtain ⟨front, _, _, compiled₁, _, _, _, begins, longer⟩ := onward code compiled
    rw [compiled₁] at ran
    obtain ⟨r, ran, same⟩ := Option.map_eq_some_iff.mp ran
    obtain ⟨halted, output⟩ := Prod.mk.inj same
    obtain ⟨r', ran', printed, _⟩ := longer 100 r ran halted
    exact ⟨code, front, rfl, compiled₁, begins, r', ran', output ▸ printed⟩

end BlockCode

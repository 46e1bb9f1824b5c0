import BlockCode.Proofs.Grammar.Relabel
import BlockCode.Proofs.Parse.Moved
import BlockCode.Proofs.Parse.Overlong

/-! The tokens of one program behind those of another are one program, with the statements of the
first and behind them those of the second. -/

namespace BlockCode

open Grammar

namespace Grammar.Derivation

/-- The statements of two bodies in a row. -/
def andThen : Derivation .body → Derivation .body → Derivation .body
  -- The first body keeps its statements, and the second one follows at its end.
  | nothing, other => other
  | also first others, other => also first (others.andThen other)

/-- The tokens of the first body come first. -/
theorem tokens_andThen : (d e : Derivation .body) → (d.andThen e).tokens = d.tokens ++ e.tokens
  -- The statements of the first body are gone through one by one.
  | nothing, e => by simp [andThen, tokens]
  | also first others, e => by simp [andThen, tokens, tokens_andThen others e]

/-- No level is added. -/
theorem depth_andThen : (d e : Derivation .body) → (d.andThen e).depth = max d.depth e.depth
  -- A row of statements is as deep as the deepest of them, on either side of the joint.
  | nothing, e => by simp [andThen, depth]
  | also first others, e => by simp [andThen, depth, depth_andThen others e, max_assoc]

/-- Alternatives stay with their nearest choices: no statement begins with one. -/
theorem nearest_andThen {e : Derivation .body} (own' : e.Nearest) :
    (d : Derivation .body) → d.Nearest → (d.andThen e).Nearest
  -- Where the bodies meet, a statement begins, and none begins with an alternative.
  | nothing, _ => by simpa only [andThen] using own'
  | also first others, ⟨inFirst, inOthers⟩ => by
    rw [andThen]
    exact ⟨inFirst, nearest_andThen own' others inOthers⟩

/-- The second body is numbered behind the first one. -/
theorem build_andThen : (d e : Derivation .body) → (k : Nat) →
    (d.andThen e).build k =
      ((d.build k).1 ++ (e.build (d.build k).2).1, (e.build (d.build k).2).2)
  -- The numbers go on from one statement to the next, across the joint as well.
  | nothing, e, k => by simp [andThen, build]
  | also first others, e, k => by
    simp only [andThen, build, build_andThen others e, List.cons_append]

end Grammar.Derivation

namespace Node

mutual

/-- Every node of a tree has a number. -/
theorem length_ids : (n : Node) → n.ids.length = n.size
  -- Numbers are collected as nodes are counted.
  | .program _ body | .block _ body => by simp [ids, size, length_idsAll body]
  | .assign _ _ value | .print _ value => by simp [ids, size, length_ids value]
  | .choose _ condition yes => by simp [ids, size, length_ids condition, length_ids yes]
  | .chooseElse _ condition yes no => by
    simp [ids, size, length_ids condition, length_ids yes, length_ids no, Nat.add_assoc]
  | .loop _ condition body => by simp [ids, size, length_ids condition, length_ids body]
  | .binary _ left _ right => by simp [ids, size, length_ids left, length_ids right]
  | .declare .. | .literal .. | .use .. | .unknown .. => rfl

/-- Every node of some trees has a number. -/
theorem length_idsAll : (ns : List Node) → (idsAll ns).length = sizes ns
  -- Both add up over the trees.
  | [] => rfl
  | n :: ns => by simp [idsAll, sizes, length_ids n, length_idsAll ns]

end

/-- The first number behind a program is the number of its nodes. -/
theorem build_size (d : Derivation .body) (mark : Mark) :
    (d.build 1).2 = (program mark (d.build 1).1).size := by
  -- The program has the number zero, and its statements have those up to that number.
  have numbered := d.numbers 1
  have count := numbered.perm.length_eq
  have above := numbered.ordered
  rw [length_idsAll, List.length_map, List.length_range'] at count
  rw [size]
  omega

/-- Moving a token does not change its kind. -/
theorem kind_moved (r : Relocation) (t : Token) : (t.moved r).kind = t.kind := rfl

/-- The tree of moved tokens, numbered from a larger number on, is the moved tree. -/
theorem build_moved {d : Derivation .body} (own : d.Nearest) (legible : d.Legible) (r : Relocation)
    (k : Nat) : ((d.relabel (kind_moved r)).build (r.gap + k)).1 = movedAll r (d.build k).1 := by
  -- Both are what is read: the one from the tokens, the other from the moved ones.
  let mark : Token := ⟨.finish, "", .start⟩
  have legible' : (d.relabel (kind_moved r)).Legible := by
    unfold Derivation.Legible
    rw [d.tokens_relabel]
    intro t member number
    obtain ⟨u, inside, rfl⟩ := List.mem_map.mp member
    exact legible u inside number
  have read := reads d own legible (· = .finish) d.depth k [mark] (d.tokens ++ [mark])
    (by simp) (Nat.le_refl _) ⟨mark, [], rfl, by simp [mark]⟩ (Nat.le_refl _)
  have read' := reads (d.relabel (kind_moved r)) (d.nearest_relabel _ own) legible' (· = .finish)
    d.depth (r.gap + k) [mark.moved r] ((d.tokens ++ [mark]).map (Token.moved r)) (by simp)
    (Nat.le_of_eq (d.depth_relabel _)) ⟨mark.moved r, [], rfl, by simp [mark, Token.moved]⟩
    (by simp [d.tokens_relabel])
  have moved := @moved_statements r _ (· = .finish) (follows_statement d.depth)
    (d.tokens ++ [mark]) ⟨d.tokens ++ [mark], k⟩
  rw [read, Cursor.moved, List.map_append, List.map_singleton] at moved
  rw [d.tokens_relabel, List.map_append, List.map_singleton] at read'
  have same := moved.eq_ok
  rw [read'] at same
  exact congrArg Prod.fst (Except.ok.inj same)

/-- All tokens before the end mark of a scanned list are its program. -/
theorem Scanned.programTokens_eq {front : List Token} {mark : Token}
    (scanned : Scanned (front ++ [mark])) : programTokens (front ++ [mark]) = front := by
  -- The last token of the list is the only mark in it.
  obtain ⟨before, last, split, ended, others⟩ := scanned.ended
  obtain ⟨rfl, same⟩ := List.append_inj' split rfl
  cases same
  exact programTokens_append others ended

/-- The numbers of scanned tokens that are parsed can be read. -/
theorem Scanned.admissible {tokens : List Token} {tree : Node} (scanned : Scanned tokens)
    (read : parse tokens = .ok tree) : Admissible tokens := by
  have closed := scanned.closed
  refine ⟨closed, fun t member number => ?_⟩
  cases closed.verdict with
  | accepted used mark rest _ split ended _ plain _ =>
    -- A program is read up to the end mark, so that all numbers are passed.
    obtain ⟨front, last, rfl, final, _⟩ := scanned.ended
    have used_eq : front = used := by
      rw [← scanned.programTokens_eq, split,
        programTokens_append (fun u inside => (plain u inside).unmarked) ended]
    have inside : t ∈ used := by
      rcases List.mem_append.mp member with before | behind
      · exact used_eq ▸ before
      · rw [List.mem_singleton.mp behind, final] at number
        cases number
    exact scanned.legible member (scanned.not_overlong member (plain t inside)) number
  | refused front t rest reason split _ _ same =>
    rw [split, same t rest (.refl _ _) (split ▸ closed)] at read
    cases read

/-- The program in a moved list is the moved program. -/
theorem programTokens_moved (r : Relocation) (tokens : List Token) :
    programTokens (tokens.map (Token.moved r)) = (programTokens tokens).map (Token.moved r) := by
  -- Moving keeps the kinds, so the first mark is the same token.
  unfold programTokens
  rw [List.takeWhile_map]
  rfl

/-- Two scanned lists that are parsed are parsed one behind the other. The statements of the second
list follow those of the first, with their numbers behind those of the first tree. -/
theorem parse_concat {front tokens : List Token} {mark : Token} {tree tree' : Node} {r : Relocation}
    (scanned : Scanned (front ++ [mark])) (read : parse (front ++ [mark]) = .ok tree)
    (scanned' : Scanned tokens) (read' : parse tokens = .ok tree') (gap : r.gap + 1 = tree.size) :
    ∃ first, parse (front ++ tokens.map (Token.moved r)) =
      .ok (.program ⟨0, first⟩ (tree.body ++ tree'.body.map (moved r))) := by
  obtain ⟨d, _, reading, shallow, rfl⟩ := parse_sound read
  obtain ⟨d', _, reading', shallow', rfl⟩ := parse_sound read'
  have admissible := scanned.admissible read
  have admissible' := scanned'.admissible read'
  -- One derivation behind the other covers the program in the whole list.
  let whole := d.andThen (d'.relabel (kind_moved r))
  have covers : whole.tokens = programTokens (front ++ tokens.map (Token.moved r)) := by
    have words : ∀ t ∈ front, t.kind ≠ .finish := by
      intro t member
      rw [← scanned.programTokens_eq, ← reading.covers] at member
      exact d.not_finish t member
    have passed : programTokens (front ++ tokens.map (Token.moved r)) =
        front ++ programTokens (tokens.map (Token.moved r)) :=
      List.takeWhile_append_of_pos (by simpa using words)
    rw [Derivation.tokens_andThen, Derivation.tokens_relabel, reading.covers, reading'.covers,
      scanned.programTokens_eq, passed, programTokens_moved]
  have reads : ReadBy (front ++ tokens.map (Token.moved r)) whole :=
    ⟨covers, Derivation.nearest_andThen (d'.nearest_relabel _ reading'.own) d reading.own⟩
  have shallower : whole.depth ≤ maxNesting := by
    rw [Derivation.depth_andThen, Derivation.depth_relabel]
    exact max_le shallow shallow'
  -- The numbers in both lists can be read.
  have legible : Admissible (front ++ tokens.map (Token.moved r)) := by
    obtain ⟨before, last, rfl, ended⟩ := admissible'.closed
    refine ⟨⟨front ++ before.map (Token.moved r), last.moved r, by simp, ended⟩, ?_⟩
    intro t member number
    rcases List.mem_append.mp member with inside | behind
    · exact admissible.legible t (List.mem_append_left _ inside) number
    · obtain ⟨u, inside, rfl⟩ := List.mem_map.mp behind
      exact admissible'.legible u inside number
  obtain ⟨tree, parsed⟩ := parse_complete legible reads shallower
  obtain ⟨d'', first, reading'', _, rfl⟩ := parse_sound parsed
  obtain rfl := reads.unique reading''
  refine ⟨first, parsed.trans ?_⟩
  -- The second derivation is numbered from the size of the first tree on.
  rw [Derivation.build_andThen, build_size d ⟨0, first⟩]
  show _ = Except.ok (program ⟨0, first⟩ ((d.build 1).1 ++ (d'.build 1).1.map (moved r)))
  rw [← movedAll_eq_map, ← build_moved reading'.own (reading'.legible admissible') r 1, gap]
  rfl

end Node

end BlockCode

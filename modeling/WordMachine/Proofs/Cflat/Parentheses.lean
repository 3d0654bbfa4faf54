/-
Statements whose parentheses match. However such a statement is divided into clauses, arguments, values and calls,
the parentheses of the parts match again, and while an expression is read from right to left, as many closing
parentheses wait among the operators as groups are open. So no group is left open, and no parenthesis is found
without its partner; after `struct` any one token is taken for a name, so that this word is left out.
-/
import WordMachine.Proofs.Cflat.Acceptance
import WordMachine.Proofs.Cflat.Refusals
import WordMachine.Proofs.Cflat.Slices

namespace WordMachine.Cflat

/-! ## Groups that are open -/

/-- With `depth` groups open before the list, each closing parenthesis of it closes one, and at its end none is
open. -/
def Closes : Nat → List Token → Prop
  | depth, [] => depth = 0
  | depth, t :: ts => (t = ")" → 0 < depth) ∧ Closes (nextDepth depth t) ts

theorem nextDepth_token {t : Token} (ho : t ≠ "(") (hc : t ≠ ")") (depth : Nat) : nextDepth depth t = depth := by
  rw [nextDepth, if_neg ho, if_neg hc]

theorem closes_open {depth : Nat} {ts : List Token} : Closes depth ("(" :: ts) ↔ Closes (depth + 1) ts :=
  ⟨fun h => h.2, fun h => ⟨fun he => absurd he (by decide), h⟩⟩

theorem closes_close {depth : Nat} {ts : List Token} : Closes (depth + 1) (")" :: ts) ↔ Closes depth ts :=
  ⟨fun h => h.2, fun h => ⟨fun _ => Nat.succ_pos depth, h⟩⟩

theorem closes_token {t : Token} (ho : t ≠ "(") (hc : t ≠ ")") {depth : Nat} {ts : List Token} :
    Closes depth (t :: ts) ↔ Closes depth ts := by
  rw [Closes, nextDepth_token ho hc]
  exact ⟨fun h => h.2, fun h => ⟨fun he => absurd he hc, h⟩⟩

theorem closes_append {ys : List Token} (hys : Closes 0 ys) : ∀ {xs : List Token} {depth : Nat},
    Closes depth xs → Closes depth (xs ++ ys)
  | [], depth, h => by
    obtain rfl : depth = 0 := h
    exact hys
  | _ :: _, _, h => ⟨h.1, closes_append hys h.2⟩

/-- After a list whose parentheses match, as many groups are open as before it. -/
theorem Balanced.closes_append_iff {p : Token → Prop} {ts : List Token} (h : Balanced p ts) :
    ∀ (depth : Nat) (rest : List Token), Closes depth (ts ++ rest) ↔ Closes depth rest := by
  induction h with
  | nil => exact fun _ _ => Iff.rfl
  | token ho hc _ _ ih =>
    intro depth rest
    rw [List.cons_append, closes_token ho hc, ih]
  | group _ _ ihi ih =>
    intro depth rest
    rw [List.cons_append, List.append_assoc, List.cons_append, closes_open, ihi, closes_close, ih]

theorem Balanced.closes {p : Token → Prop} {ts : List Token} (h : Balanced p ts) : Closes 0 ts := by
  have hall := (h.closes_append_iff 0 []).2 rfl
  rwa [List.append_nil] at hall

/-! ## Dividing a list -/

/-- A group that is open is closed, and the parentheses inside of it and after it match. -/
theorem exists_closeGroup? {after : Nat} : ∀ {ts : List Token} {depth : Nat}, Closes (depth + 1 + after) ts →
    ∃ inner rest, closeGroup? depth ts = some (inner, rest) ∧ Closes depth inner ∧ Closes after rest
  | [], depth, h => by
    have hzero : depth + 1 + after = 0 := h
    omega
  | t :: ts, depth, h => by
    by_cases ho : t = "("
    · subst ho
      rw [closes_open, show depth + 1 + after + 1 = depth + 1 + 1 + after by omega] at h
      obtain ⟨inner, rest, hgroup, hinner, hrest⟩ := exists_closeGroup? h
      exact ⟨"(" :: inner, rest, by rw [closeGroup?_open, hgroup]; rfl, closes_open.2 hinner, hrest⟩
    by_cases hc : t = ")"
    · subst hc
      cases depth with
      | zero =>
        rw [show 0 + 1 + after = after + 1 by omega, closes_close] at h
        exact ⟨[], ts, closeGroup?_close_zero ts, rfl, h⟩
      | succ depth =>
        rw [show depth + 1 + 1 + after = depth + 1 + after + 1 by omega, closes_close] at h
        obtain ⟨inner, rest, hgroup, hinner, hrest⟩ := exists_closeGroup? h
        exact ⟨")" :: inner, rest, by rw [closeGroup?_close_succ, hgroup]; rfl, closes_close.2 hinner, hrest⟩
    · rw [closes_token ho hc] at h
      obtain ⟨inner, rest, hgroup, hinner, hrest⟩ := exists_closeGroup? h
      exact ⟨t :: inner, rest, by rw [closeGroup?_token ho hc, hgroup]; rfl, (closes_token ho hc).2 hinner, hrest⟩

/-- A group that starts in the list is closed in it. -/
theorem exists_closeGroup?_of_open {depth : Nat} {ts : List Token} (h : Closes depth ("(" :: ts)) :
    ∃ inner rest, closeGroup? 0 ts = some (inner, rest) ∧ Closes 0 inner ∧ Closes depth rest := by
  rw [closes_open, show depth + 1 = 0 + 1 + depth by omega] at h
  exact exists_closeGroup? h

theorem closes_of_wholeGroup? {ts inner : List Token} (h : Closes 0 ("(" :: ts))
    (hgroup : wholeGroup? ts = some inner) : Closes 0 inner := by
  obtain ⟨inner', rest, hclose, hinner, -⟩ := exists_closeGroup?_of_open h
  rw [wholeGroup?_eq_some, hclose] at hgroup
  cases hgroup
  exact hinner

theorem closes_splitTop (separator : Token) : ∀ {ts : List Token} {depth : Nat}, Closes depth ts →
    Closes depth (splitTop separator depth ts).1 ∧ ∀ p ∈ (splitTop separator depth ts).2, Closes 0 p
  | [], depth, h => ⟨h, fun _ hp => by cases hp⟩
  | t :: ts, depth, h => by
    obtain ⟨hfirst, hothers⟩ := closes_splitTop separator h.2
    rw [splitTop]
    split
    · rename_i htop
      obtain ⟨-, rfl, ho, hc⟩ := htop
      rw [nextDepth_token ho hc] at hfirst hothers ⊢
      exact ⟨rfl, List.forall_mem_cons.2 ⟨hfirst, hothers⟩⟩
    · exact ⟨⟨h.1, hfirst⟩, hothers⟩

theorem closes_of_mem_parts {separator : Token} {ts p : List Token} (h : Closes 0 ts) (hp : p ∈ parts separator ts) :
    Closes 0 p := by
  obtain ⟨hfirst, hothers⟩ := closes_splitTop separator h
  exact List.forall_mem_cons.2 ⟨hfirst, hothers⟩ p hp

theorem closes_separated {ps : List (List Token)} (h : ∀ p ∈ ps, Closes 0 p) : Closes 0 (separated "," ps) := by
  induction ps with
  | nil => rfl
  | cons p ps ih =>
    rw [List.forall_mem_cons] at h
    exact (closes_token (by decide) (by decide)).2 (closes_append (ih h.2) h.1)

/-! ## Names with parentheses after them -/

/-- A fault for which a parenthesis has no partner. -/
def Fault.OfParentheses : Fault → Prop
  | .malformed (.unbalanced _) | .malformed (.argumentsNotClosed _) => True
  | _ => False

namespace Invocation

/-- The parentheses of the parts match, and nothing is refused for a parenthesis. -/
def Matched : Invocation → Prop
  | .refused fault => ¬(Fault.malformed fault).OfParentheses
  | i => ∀ p ∈ i.parts, Closes 0 p

theorem closes_of_mem_clauses? {inner p : List Token} {clauses : List (List Token)} (h : Closes 0 inner)
    (hclauses : clauses? inner = some clauses) (hp : p ∈ clauses) : Closes 0 p := by
  cases htop : hasTop ";" inner with
  | true =>
    rw [clauses?, htop, if_pos rfl] at hclauses
    dsimp only at hclauses
    split at hclauses
    · cases hclauses
      exact closes_of_mem_parts h hp
    · cases hclauses
  | false =>
    rcases clauses?_commas htop with ⟨-, hnone⟩ | ⟨part, middle, last, hrest, hsome⟩
    · rw [hclauses] at hnone
      cases hnone
    · rw [hclauses] at hsome
      cases hsome
      -- the middle clause is all that stands between the first comma and the last, with the commas in it
      obtain ⟨hfirst, hothers⟩ := closes_splitTop "," h
      rw [hrest, List.forall_mem_append, List.forall_mem_cons, List.forall_mem_singleton] at hothers
      simp only [List.mem_cons, List.not_mem_nil, or_false] at hp
      rcases hp with rfl | rfl | rfl
      · exact hfirst
      · exact closes_append (closes_separated hothers.1.2) hothers.1.1
      · exact hothers.2

theorem matched_read {inner : List Token} (callee : Token) (h : Closes 0 inner) : (read callee inner).Matched := by
  unfold read
  split
  · split
    · exact fun p hp => closes_of_mem_clauses? h ‹_› hp
    · exact id
  · intro p hp
    dsimp only [parts] at hp
    split at hp
    · cases hp
    · exact closes_of_mem_parts h hp

end Invocation

/-! ## Expressions -/

/-- The token that is a part of an expression by itself. -/
def Item.token? : Item → Option Token
  | .token t => some t
  | .invoke _ => none

/-- The token that a piece of an expression is. -/
def Piece.token? : Piece → Option Token
  | .token t => some t
  | .call _ => none

def Item.Matched : Item → Prop
  | .token _ => True
  | .invoke invocation => invocation.Matched

theorem closes_callee {t : Token} (h : t.isCallee = true) {depth : Nat} {ts : List Token} :
    Closes depth (t :: ts) ↔ Closes depth ts := by
  refine closes_token ?_ ?_
  · rintro rfl
    exact absurd h (by decide)
  · rintro rfl
    exact absurd h (by decide)

/-- A group that is part of a call is closed, so that the parentheses around the calls match. -/
theorem Item.matched_scan {depth : Nat} {tokens : List Token} (h : Closes depth tokens) :
    (∀ i ∈ scan tokens, i.Matched) ∧ Closes depth ((scan tokens).filterMap Item.token?) := by
  fun_induction scan tokens generalizing depth with
  | case1 => exact ⟨fun _ hi => by (cases hi), h⟩
  | case2 t ts hcallee inner rest hclose ih =>
    obtain ⟨ts, rfl⟩ := List.head?_eq_some_iff.1 hcallee.2
    obtain ⟨inner', rest', hclose', hinner, hrest⟩ := exists_closeGroup?_of_open ((closes_callee hcallee.1).1 h)
    rw [List.tail_cons, hclose'] at hclose
    cases hclose
    obtain ⟨hitems, htokens⟩ := ih hrest
    exact ⟨List.forall_mem_cons.2 ⟨Invocation.matched_read t hinner, hitems⟩, htokens⟩
  | case3 t ts hcallee hclose =>
    -- a group that nothing closes
    obtain ⟨ts, rfl⟩ := List.head?_eq_some_iff.1 hcallee.2
    obtain ⟨inner, rest, hclose', -, -⟩ := exists_closeGroup?_of_open ((closes_callee hcallee.1).1 h)
    rw [List.tail_cons, hclose'] at hclose
    cases hclose
  | case4 t ts _ ih =>
    obtain ⟨hitems, htokens⟩ := ih h.2
    exact ⟨List.forall_mem_cons.2 ⟨trivial, hitems⟩, h.1, htokens⟩

theorem nextDepth_injective {t : Token} {m n : Nat} (hm : t = ")" → 0 < m) (hn : t = ")" → 0 < n)
    (h : nextDepth m t = nextDepth n t) : m = n := by
  by_cases hopen : t = "("
  · subst hopen
    exact Nat.succ.inj h
  by_cases hclose : t = ")"
  · subst hclose
    have hm := hm rfl
    have hn := hn rfl
    have h : m - 1 = n - 1 := h
    omega
  · rwa [nextDepth_token hopen hclose, nextDepth_token hopen hclose] at h

theorem not_ofParentheses_of_read {t : Token} {fault : Fault} (h : Leaf.read t = .error fault) :
    ¬fault.OfParentheses := by
  rcases read_eq_error h with rfl | rfl <;> exact id

namespace Stacks

variable {line : Nat} {fault : Fault}

/-- The number of closing parentheses that wait for their partners. -/
def waiting (operators : List Token) : Nat := operators.count ")"

theorem waiting_cons {op : Token} (h : op ≠ ")") (operators : List Token) :
    waiting (op :: operators) = waiting operators :=
  List.count_cons_of_ne h

theorem not_ofParentheses_of_applyOperator {op : Token} {operands : List Node}
    (h : applyOperator line op operands = .error fault) : ¬fault.OfParentheses := by
  unfold applyOperator at h
  split at h
  · split at h <;> cases h
    exact id
  · split at h <;> cases h
    exact id

/-- Operators that are applied early stand before the first closing parenthesis. -/
theorem waiting_reduce {level : Nat} {s : Stacks} : ∀ {operators : List Token} {operands : List Node},
    reduce line level operators operands = .ok s → waiting s.operators = waiting operators
  | [], _, h => by cases h; rfl
  | op :: operators, operands, h => by
    rw [reduce] at h
    split at h
    · cases h; rfl
    · rename_i hlevel
      have hop : op ≠ ")" := by
        rintro rfl
        cases hlevel
      split at h
      · split at h
        · rw [waiting_reduce h, waiting_cons hop]
        · cases h
      · cases h; rfl

theorem not_ofParentheses_of_reduce {level : Nat} : ∀ {operators : List Token} {operands : List Node},
    reduce line level operators operands = .error fault → ¬fault.OfParentheses
  | [], _, h => by cases h
  | op :: operators, operands, h => by
    rw [reduce] at h
    split at h
    · cases h
    · split at h
      · split at h
        · exact not_ofParentheses_of_reduce h
        · rename_i happly
          cases h
          exact not_ofParentheses_of_applyOperator happly
      · cases h

/-- An opening parenthesis takes its partner off the stack, if there is one. -/
theorem waiting_openParen {s : Stacks} : ∀ {operators : List Token} {operands : List Node},
    openParen line operators operands = .ok s → waiting s.operators + 1 = waiting operators
  | [], _, h => by cases h
  | op :: operators, operands, h => by
    rw [openParen] at h
    split at h
    · rename_i hop
      cases h
      rw [hop]
      exact List.count_cons_self.symm
    · rename_i hop
      split at h
      · rw [waiting_openParen h, waiting_cons hop]
      · cases h

theorem not_ofParentheses_of_openParen : ∀ {operators : List Token} {operands : List Node},
    0 < waiting operators → openParen line operators operands = .error fault → ¬fault.OfParentheses
  | [], _, hw, _ => absurd hw (Nat.lt_irrefl 0)
  | op :: operators, operands, hw, h => by
    rw [openParen] at h
    split at h
    · cases h
    · rename_i hop
      rw [waiting_cons hop] at hw
      split at h
      · exact not_ofParentheses_of_openParen hw h
      · rename_i happly
        cases h
        exact not_ofParentheses_of_applyOperator happly

theorem not_ofParentheses_of_finish : ∀ {operators : List Token} {operands : List Node},
    waiting operators = 0 → finish line operators operands = .error fault → ¬fault.OfParentheses
  | [], _, _, h => by cases h
  | op :: operators, operands, hw, h => by
    rw [finish] at h
    split at h
    · rename_i hop
      rw [hop] at hw
      exact absurd (List.count_cons_self.symm.trans hw) (Nat.succ_ne_zero _)
    · rename_i hop
      rw [waiting_cons hop] at hw
      split at h
      · exact not_ofParentheses_of_finish hw h
      · rename_i happly
        cases h
        exact not_ofParentheses_of_applyOperator happly

/-- A token changes the number of closing parentheses that wait as it changes, from the other side, the number of
groups that are open. -/
theorem waiting_pushToken {t : Token} {first : Bool} {s s' : Stacks} (h : s.pushToken line t first = .ok s') :
    (t = ")" → 0 < waiting s'.operators) ∧ waiting s.operators = nextDepth (waiting s'.operators) t := by
  unfold pushToken at h
  split at h
  · rename_i hclose
    subst hclose
    cases h
    have hcount : waiting (")" :: s.operators) = waiting s.operators + 1 := List.count_cons_self
    exact ⟨fun _ => by rw [hcount]; exact Nat.succ_pos _, by rw [hcount]; rfl⟩
  rename_i hclose
  refine ⟨fun he => absurd he hclose, ?_⟩
  split at h
  · rename_i hopen
    subst hopen
    exact (waiting_openParen h).symm
  rename_i hopen
  rw [nextDepth_token hopen hclose]
  split at h
  · dsimp only at h
    split at h
    · cases h
    · rename_i hlevel
      split at h
      · rename_i hreduce
        cases h
        rw [← waiting_reduce hreduce, waiting_cons]
        intro hop
        rw [hop] at hlevel
        cases hlevel
      · cases h
  · split at h <;> cases h
    rfl

theorem not_ofParentheses_of_pushToken {t : Token} {first : Bool} {s : Stacks}
    (hw : t = "(" → 0 < waiting s.operators) (h : s.pushToken line t first = .error fault) : ¬fault.OfParentheses := by
  unfold pushToken at h
  split at h
  · cases h
  split at h
  · exact not_ofParentheses_of_openParen (hw ‹_›) h
  split at h
  · dsimp only at h
    split at h
    · cases h
      exact id
    · split at h
      · cases h
      · rename_i hreduce
        cases h
        exact not_ofParentheses_of_reduce hreduce
  · split at h
    · cases h
    · rename_i hread
      cases h
      exact not_ofParentheses_of_read hread

/-- The tokens among pieces. -/
def tokensOf (ps : List (Piece × Bool)) : List Token := ps.filterMap (·.1.token?)

theorem tokensOf_token (t : Token) (first : Bool) (ps : List (Piece × Bool)) :
    tokensOf ((.token t, first) :: ps) = t :: tokensOf ps := rfl

/-- As many closing parentheses wait as groups are open before the pieces that have been read. -/
theorem waiting_pushAll {ps : List (Piece × Bool)} {depth : Nat} {s : Stacks} (hps : Closes depth (tokensOf ps))
    (h : pushAll line ps = .ok s) : waiting s.operators = depth := by
  -- the last piece is pushed first, so that the stacks of the tail are there before the head is read
  induction ps generalizing depth s with
  | nil =>
    obtain rfl : depth = 0 := hps
    cases h
    rfl
  | cons p ps ih =>
    obtain ⟨p, first⟩ := p
    rw [pushAll] at h
    cases hrest : pushAll line ps with
    | error e =>
      rw [hrest] at h
      cases h
    | ok s' =>
      rw [hrest] at h
      cases p with
      | call tree =>
        cases h
        exact ih (s := s') hps hrest
      | token t =>
        rw [tokensOf_token] at hps
        obtain ⟨hclose, hstep⟩ := waiting_pushToken h
        rw [ih hps.2 hrest] at hstep
        exact (nextDepth_injective hps.1 hclose hstep).symm

theorem not_ofParentheses_of_pushAll {ps : List (Piece × Bool)} {depth : Nat} (hps : Closes depth (tokensOf ps))
    (h : pushAll line ps = .error fault) : ¬fault.OfParentheses := by
  induction ps generalizing depth with
  | nil => cases h
  | cons p ps ih =>
    obtain ⟨p, first⟩ := p
    rw [pushAll] at h
    obtain ⟨depth', hrest⟩ : ∃ depth', Closes depth' (tokensOf ps) := by
      cases p with
      | call tree => exact ⟨depth, hps⟩
      | token t => exact ⟨_, hps.2⟩
    cases hpush : pushAll line ps with
    | error e =>
      rw [hpush] at h
      cases h
      exact ih hrest hpush
    | ok s =>
      rw [hpush] at h
      cases p with
      | call tree => cases h
      | token t =>
        rw [tokensOf_token] at hps
        refine not_ofParentheses_of_pushToken (fun hopen => ?_) h
        rw [waiting_pushAll hps.2 hpush, hopen]
        exact Nat.succ_pos depth

end Stacks

theorem tokensOf_markPieces (first : Bool) (ps : List Piece) :
    Stacks.tokensOf (markPieces first ps) = ps.filterMap Piece.token? := by
  induction ps generalizing first with
  | nil => rfl
  | cons p ps ih =>
    rw [markPieces, Stacks.tokensOf, List.filterMap_cons, List.filterMap_cons, ← Stacks.tokensOf, ih]

/-- An expression whose parentheses match is refused for no parenthesis. -/
theorem not_ofParentheses_of_resolve {line : Nat} {ps : List Piece} {fault : Fault}
    (hps : Closes 0 (ps.filterMap Piece.token?)) (h : resolve line ps = .error fault) : ¬fault.OfParentheses := by
  rw [← tokensOf_markPieces true] at hps
  unfold resolve at h
  split at h
  · rename_i hpush
    cases h
    exact Stacks.not_ofParentheses_of_pushAll hps hpush
  · rename_i s hpush
    split at h
    · cases h
    · cases h
      exact id
    · rename_i hfinish
      cases h
      exact Stacks.not_ofParentheses_of_finish (Stacks.waiting_pushAll hps hpush) hfinish

/-! ## Statements by their form -/

namespace Form

/-- The parentheses of the parts match, and so do those of an expression around its calls; nothing is refused for a
parenthesis. -/
def Matched : Form → Prop
  | .refused fault => ¬fault.OfParentheses
  | .invoke invocation => invocation.Matched
  | .expression items => (∀ i ∈ items, i.Matched) ∧ Closes 0 (items.filterMap Item.token?)
  | form => ∀ p ∈ form.parts, Closes 0 p

theorem matched_loop {rest : List Token} (h : Closes 0 rest) : (loop rest).Matched := by
  unfold loop
  split
  · rename_i inner hgroup
    split at hgroup
    · rename_i hopen
      obtain ⟨ts, rfl⟩ := List.head?_eq_some_iff.1 hopen
      exact Invocation.matched_read "for" (closes_of_wholeGroup? h hgroup)
    · cases hgroup
  · exact id

theorem not_ofParentheses_of_usableType {word : Token} {fault : Fault} (h : usableType word = .error fault) :
    ¬fault.OfParentheses := by
  unfold usableType at h
  repeat' split at h
  all_goals cases h
  exact id

theorem not_ofParentheses_of_parameter {function : Token} {tokens : List Token} {fault : Fault}
    (h : parameter function tokens = .error fault) : ¬fault.OfParentheses := by
  cases tokens with
  | nil => cases h; exact id
  | cons word rest =>
    rw [parameter] at h
    rcases bind_eq_error.1 h with h | ⟨type, -, h⟩
    · exact not_ofParentheses_of_usableType h
    · split at h
      · cases h; exact id
      · split at h <;> cases h
        exact id

theorem matched_function (returns name : Token) (inner : List Token) : (function returns name inner).Matched := by
  unfold function
  split
  · exact fun _ hp => by cases hp
  · rename_i fault h
    rcases bind_eq_error.1 h with h | ⟨type, -, h⟩
    · exact not_ofParentheses_of_usableType h
    · rcases bind_eq_error.1 h with h | ⟨heads, -, h⟩
      · unfold parameters at h
        split at h
        · cases h
        · obtain ⟨tokens, -, h⟩ := mem_of_mapM_eq_error h
          exact not_ofParentheses_of_parameter h
      · cases h

theorem matched_of_call? {tokens : List Token} {form : Form} (hclose : Closes 0 tokens) (h : call? tokens = some form) :
    form.Matched := by
  obtain ⟨callee, inner, rfl, hcallee, hgroup, rfl⟩ := call?_eq_some_iff.1 h
  exact Invocation.matched_read callee (closes_of_wholeGroup? ((closes_callee hcallee).1 hclose) hgroup)

theorem matched_of_transfer? {keyword : Token} {rest : List Token} {form : Form} (hclose : Closes 0 rest)
    (h : transfer? keyword rest = some form) : form.Matched := by
  unfold transfer? at h
  repeat' split at h
  all_goals cases h
  all_goals try exact id
  all_goals simp [Matched, parts, hclose]

theorem closes_of_append {xs ys : List Token} (hxs : ∀ t ∈ xs, t ≠ "(" ∧ t ≠ ")") (h : Closes 0 (xs ++ ys)) :
    Closes 0 ys := by
  induction xs with
  | nil => exact h
  | cons t xs ih =>
    rw [List.forall_mem_cons] at hxs
    exact ih hxs.2 ((closes_token hxs.1.1 hxs.1.2).1 h)

/-- Stars, a name and an equals sign are no parentheses, so that those of the value match. -/
theorem matched_declaration (type : String) {rest : List Token} (hclose : Closes 0 rest) :
    (declaration type rest).Matched := by
  have hrest : Closes 0 (rest.dropWhile (· = "*")) := by
    rw [← List.takeWhile_append_dropWhile (p := (· = "*")) (l := rest)] at hclose
    refine closes_of_append (fun t ht => ?_) hclose
    have hstar : t = "*" := of_decide_eq_true (List.all_eq_true.1 List.all_takeWhile t ht)
    rw [hstar]
    decide
  unfold declaration
  dsimp only
  split
  · exact id
  · rename_i name more hmore
    split
    · exact id
    rename_i hname
    split
    · exact fun _ hp => by cases hp
    split
    · rename_i sign value hvalue
      intro p hp
      obtain rfl : p = value := List.mem_singleton.1 hp
      rw [hmore, hvalue.1] at hrest
      have hparen : ∀ t ∈ [name, "="], t ≠ "(" ∧ t ≠ ")" := by
        refine List.forall_mem_cons.2 ⟨⟨?_, ?_⟩, by decide⟩
        · rintro rfl
          exact hname rfl
        · rintro rfl
          exact hname rfl
      exact closes_of_append hparen hrest
    · exact id

theorem matched_of_declaration? {tokens : List Token} {form : Form} (hclose : Closes 0 tokens)
    (hstruct : "struct" ∉ tokens) (h : declaration? tokens = some form) : form.Matched := by
  obtain ⟨words, type, next, rest, rfl, -, hwords, -, rfl⟩ := declaration?_eq_some_iff.1 h
  -- the token after `struct` could be a parenthesis, and would be taken out of its list
  have htype : type ≠ "struct" := by
    rintro rfl
    exact hstruct (by simp)
  rw [if_neg htype]
  refine matched_declaration type (closes_of_append (fun t ht => ?_) hclose)
  have hparen : ∀ w ∈ Token.declarationWords, w ≠ "(" ∧ w ≠ ")" := by decide
  exact hparen t (hwords t ht)

theorem matched_of_keyword? {tokens : List Token} {form : Form} (h : keyword? tokens = some form) : form.Matched := by
  obtain ⟨word, -, rfl⟩ := Option.map_eq_some_iff.1 h
  split
  · exact fun _ hp => by cases hp
  · exact id

theorem matched_expressionOf {tokens : List Token} (hclose : Closes 0 tokens) : (expressionOf tokens).Matched := by
  unfold expressionOf
  split
  · split
    · exact fun _ hp => by cases hp
    · rename_i hread
      exact not_ofParentheses_of_read hread
  · exact Item.matched_scan hclose

/-- A statement is divided so that the parentheses of its parts match. -/
theorem matched_ofTokens {tokens : List Token} (hclose : Closes 0 tokens) (hstruct : "struct" ∉ tokens) :
    (ofTokens tokens).Matched := by
  cases tokens with
  | nil => exact id
  | cons first rest =>
    have hrest (h : first ≠ "(" ∧ first ≠ ")") : Closes 0 rest := (closes_token h.1 h.2).1 hclose
    rw [ofTokens]
    split
    · rename_i hfor
      exact matched_loop (hrest (by rw [hfor]; decide))
    · refine getD_or (P := Matched) (fun form h => ?_) ?_
      · obtain ⟨annotations, returns, name, inner, -, -, -, -, rfl⟩ := exists_of_function? h
        exact matched_function returns name inner
      refine getD_or (P := Matched) (fun _ => matched_of_call? hclose) ?_
      refine getD_or (P := Matched) (fun form h => ?_) ?_
      · have hwords : ∀ w ∈ Token.transferWords, w ≠ "(" ∧ w ≠ ")" := by decide
        have hfirst := isSome_transfer?_iff.1 (Option.isSome_of_eq_some h)
        exact matched_of_transfer? (hrest (hwords first hfirst)) h
      refine getD_or (P := Matched) (fun _ => matched_of_declaration? hclose hstruct) ?_
      cases hk : keyword? (first :: rest) with
      | none => exact matched_expressionOf hclose
      | some form => exact matched_of_keyword? hk

end Form

/-! ## Trees -/

variable {line : Nat} {e : Error}

/-- A name with its parentheses is refused for no parenthesis unless a part is. -/
theorem Invocation.not_ofParentheses_of_build {i : Invocation} (hi : i.Matched)
    (htree : ∀ p ∈ i.parts, Closes 0 p → Node.ofTokens line p = .error e → ¬e.fault.OfParentheses)
    (h : i.build line (fun p _ => Node.ofTokens line p) = .error e) : ¬e.fault.OfParentheses := by
  cases i with
  | loop clauses =>
    rw [build_loop_eq] at h
    rcases bind_eq_error.1 h with h | ⟨nodes, -, h⟩
    · obtain ⟨p, hp, h⟩ := mem_of_mapM_eq_error h
      split at h
      · cases h
      · exact htree p hp (hi p hp) h
    · cases h
  | call callee arguments =>
    rw [build_call_eq] at h
    rcases bind_eq_error.1 h with h | ⟨nodes, -, h⟩
    · obtain ⟨p, hp, h⟩ := mem_of_mapM_eq_error h
      split at h
      · cases h
        exact id
      · exact htree p hp (hi p hp) h
    · cases h
  | refused fault =>
    cases h
    exact hi

theorem Item.token?_of_piece {i : Item} {piece : Piece} (h : i.piece line = .ok piece) : piece.token? = i.token? := by
  cases i with
  | token t =>
    cases h
    rfl
  | invoke invocation =>
    obtain ⟨tree, -, rfl⟩ := map_eq_ok.1 h
    rfl

/-- The pieces of an expression have the tokens of its items. -/
theorem filterMap_token?_of_mapM {items : List Item} {pieces : List Piece}
    (h : items.mapM (Item.piece line) = .ok pieces) : pieces.filterMap Piece.token? = items.filterMap Item.token? := by
  replace h := mapM_eq_ok.1 h
  induction h with
  | nil => rfl
  | cons hpiece _ ih => rw [List.filterMap_cons, List.filterMap_cons, Item.token?_of_piece hpiece, ih]

theorem Form.not_ofParentheses_of_build {f : Form} (hf : f.Matched)
    (htree : ∀ p ∈ f.parts, Closes 0 p → Node.ofTokens line p = .error e → ¬e.fault.OfParentheses)
    (h : f.build line (fun p _ => Node.ofTokens line p) = .error e) : ¬e.fault.OfParentheses := by
  cases f with
  | refused fault =>
    cases h
    exact hf
  | simple head arguments => cases h
  | invoke invocation => exact Invocation.not_ofParentheses_of_build hf htree h
  | result value =>
    rcases bind_eq_error.1 h with h | ⟨node, -, h⟩
    · exact htree value (List.mem_singleton_self _) (hf value (List.mem_singleton_self _)) h
    · cases h
  | initialise depth name type value =>
    rcases bind_eq_error.1 h with h | ⟨node, -, h⟩
    · exact htree value (List.mem_singleton_self _) (hf value (List.mem_singleton_self _)) h
    · cases h
  | expression items =>
    rw [build_expression] at h
    rcases bind_eq_error.1 h with h | ⟨pieces, hpieces, h⟩
    · obtain ⟨i, hi, h⟩ := mem_of_mapM_eq_error h
      have hmatched := hf.1 i hi
      cases i with
      | token t => cases h
      | invoke invocation =>
        exact Invocation.not_ofParentheses_of_build hmatched
          (fun p hp => htree p (List.mem_flatMap.2 ⟨_, hi, hp⟩)) (map_eq_error.1 h)
    · have hclose := hf.2
      rw [← filterMap_token?_of_mapM hpieces] at hclose
      exact not_ofParentheses_of_resolve hclose (atLine_eq_error.1 h).2

/-- A statement whose parentheses match is refused for no parenthesis, in none of its parts. -/
theorem not_ofParentheses_of_ofTokens {tokens : List Token} (hclose : Closes 0 tokens) (hstruct : "struct" ∉ tokens)
    (h : Node.ofTokens line tokens = .error e) : ¬e.fault.OfParentheses := by
  rw [Node.ofTokens] at h
  refine Form.not_ofParentheses_of_build (Form.matched_ofTokens hclose hstruct) (fun p hp hpclose hptree => ?_) h
  exact not_ofParentheses_of_ofTokens hpclose (fun hmem => hstruct ((Form.isInfix_of_mem_parts hp).subset hmem)) hptree
termination_by tokens.length
decreasing_by exact Form.length_lt_of_mem_parts hp

/-- A statement whose parentheses match and in which the word `struct` does not stand is not refused for a parenthesis
without a partner, nor for arguments that are not closed. -/
theorem ofTokens_balanced {line : Nat} {tokens : List Token} {e : Error} (hbalanced : Balanced (fun _ => True) tokens)
    (hstruct : "struct" ∉ tokens) (h : Node.ofTokens line tokens = .error e) :
    e.fault ≠ .malformed (.unbalanced '(') ∧ e.fault ≠ .malformed (.unbalanced ')') ∧
      ∀ callee, e.fault ≠ .malformed (.argumentsNotClosed callee) := by
  have hspared := not_ofParentheses_of_ofTokens hbalanced.closes hstruct h
  refine ⟨fun hfault => hspared ?_, fun hfault => hspared ?_, fun callee hfault => hspared ?_⟩
  · rw [hfault]
    trivial
  · rw [hfault]
    trivial
  · rw [hfault]
    trivial

/-- A call in the arguments of a call, and an operator that has no right operand. -/
theorem ofTokens_balanced_call :
    let tokens := ["f", "(", "g", "(", ")", ",", "a", "+", ")"]
    let e : Error := ⟨3, .malformed (.operandMissing "+")⟩
    Balanced (fun _ => True) tokens ∧ Node.ofTokens 3 tokens = .error e ∧
      ∀ callee, e.fault ≠ .malformed (.argumentsNotClosed callee) := by
  intro tokens e
  have hinner : Balanced (fun _ => True) ["g", "(", ")", ",", "a", "+"] :=
    .token (by decide) (by decide) trivial (.group .nil (.token (by decide) (by decide) trivial
      (.token (by decide) (by decide) trivial (.token (by decide) (by decide) trivial .nil))))
  have hbalanced : Balanced (fun _ => True) tokens := .token (by decide) (by decide) trivial (.group hinner .nil)
  have hcall : Node.ofTokens 3 ["g", "(", ")"] = .ok (.apply (.call "g") 3 []) := by
    have hform : Form.ofTokens ["g", "(", ")"] = .invoke (.call "g" []) := rfl
    rw [Node.ofTokens, hform]
    exact build_call .nil
  have hsum : Node.ofTokens 3 ["a", "+"] = .error e := by
    rw [ofTokens_of_not_open (by decide) (by decide) (by decide)]
    rfl
  have h : Node.ofTokens 3 tokens = .error e := by
    have hform : Form.ofTokens tokens = .invoke (.call "f" [["g", "(", ")"], ["a", "+"]]) := rfl
    rw [Node.ofTokens, hform]
    refine (Invocation.build_call_eq 3 "f" _).trans ?_
    rw [List.mapM_cons, List.mapM_cons, hcall, hsum]
    rfl
  exact ⟨hbalanced, h, (ofTokens_balanced hbalanced (by decide) h).2.2⟩

end WordMachine.Cflat

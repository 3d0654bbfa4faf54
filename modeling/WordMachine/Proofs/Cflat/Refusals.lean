/-
What a statement with tokens is refused for: a fault in its text, or an expression that is left with more or
fewer values than one. The error stands on the line of the statement, for the parts of it as well, since no part
without tokens is ever asked for a tree.
-/
import WordMachine.Proofs.Cflat.Forms

namespace WordMachine.Cflat

theorem atLine_eq_error {α : Type} {line : Nat} {x : Except Fault α} {e : Error} :
    atLine line x = .error e ↔ e.line = line ∧ x = .error e.fault := by
  cases x with
  | ok a => simp [atLine]
  | error fault =>
    cases e with
    | mk l f => simp [atLine, eq_comm]

/-! ## Expressions -/

namespace Stacks

variable {line : Nat} {fault : Fault}

theorem inText_of_applyOperator {op : Token} {operands : List Node}
    (h : applyOperator line op operands = .error fault) : fault.InText := by
  unfold applyOperator at h
  split at h
  · split at h <;> cases h
    trivial
  · split at h <;> cases h
    trivial

theorem inText_of_reduce {level : Nat} : ∀ {operators : List Token} {operands : List Node},
    reduce line level operators operands = .error fault → fault.InText
  | [], _, h => by cases h
  | op :: operators, operands, h => by
    rw [reduce] at h
    split at h
    · cases h
    · split at h
      · split at h
        · exact inText_of_reduce h
        · rename_i happly
          cases h
          exact inText_of_applyOperator happly
      · cases h

theorem inText_of_openParen : ∀ {operators : List Token} {operands : List Node},
    openParen line operators operands = .error fault → fault.InText
  | [], _, h => by cases h; trivial
  | op :: operators, operands, h => by
    rw [openParen] at h
    split at h
    · cases h
    · split at h
      · exact inText_of_openParen h
      · rename_i happly
        cases h
        exact inText_of_applyOperator happly

theorem inText_of_finish : ∀ {operators : List Token} {operands : List Node},
    finish line operators operands = .error fault → fault.InText
  | [], _, h => by cases h
  | op :: operators, operands, h => by
    rw [finish] at h
    split at h
    · cases h; trivial
    · split at h
      · exact inText_of_finish h
      · rename_i happly
        cases h
        exact inText_of_applyOperator happly

theorem inText_of_push {s : Stacks} {p : Piece × Bool} (h : s.push line p = .error fault) : fault.InText := by
  obtain ⟨p, first⟩ := p
  cases p with
  | call tree => cases h
  | token t =>
    rw [push, pushToken] at h
    split at h
    · cases h
    split at h
    · exact inText_of_openParen h
    split at h
    · dsimp only at h
      split at h
      · cases h; trivial
      · split at h
        · cases h
        · rename_i hreduce
          cases h
          exact inText_of_reduce hreduce
    · split at h
      · cases h
      · rename_i hread
        cases h
        exact inText_of_read hread

theorem inText_of_pushAll : ∀ {ps : List (Piece × Bool)}, pushAll line ps = .error fault → fault.InText
  | [], h => by cases h
  | p :: ps, h => by
    rw [pushAll] at h
    split at h
    · exact inText_of_push h
    · rename_i hrest
      cases h
      exact inText_of_pushAll hrest

end Stacks

/-- A fault that a statement with tokens may be refused for. -/
def Fault.OfStatement (fault : Fault) : Prop := fault.InText ∨ fault = .internal .severalValues

theorem ofStatement_of_resolve {line : Nat} {ps : List Piece} {fault : Fault}
    (h : resolve line ps = .error fault) : fault.OfStatement := by
  unfold resolve at h
  split at h
  · rename_i hpush
    cases h
    exact .inl (Stacks.inText_of_pushAll hpush)
  · split at h
    · cases h
    · cases h; exact .inr rfl
    · rename_i hfinish
      cases h
      exact .inl (Stacks.inText_of_finish hfinish)

/-! ## Statements -/

/-- An error on a line, with a fault of a statement. -/
structure Error.Refuses (line : Nat) (e : Error) : Prop where
  line_eq : e.line = line
  fault : e.fault.OfStatement

theorem Error.Refuses.malformed (line : Nat) (fault : SyntaxFault) : (Error.malformed line fault).Refuses line :=
  ⟨rfl, .inl trivial⟩

/-- A name with its parentheses is refused for its own fault or for that of a part with tokens. -/
theorem Invocation.refuses_of_build {line : Nat} {i : Invocation} {e : Error}
    {tree : (p : List Token) → p ∈ i.parts → Except Error Node}
    (htree : ∀ p hp, p ≠ [] → tree p hp = .error e → e.Refuses line) (h : i.build line tree = .error e) :
    e.Refuses line := by
  cases i with
  | loop clauses =>
    rcases bind_eq_error.1 h with h | ⟨nodes, -, h⟩
    · obtain ⟨⟨p, hp⟩, -, h⟩ := mem_of_mapM_eq_error h
      dsimp only at h
      split at h
      · cases h
      · rename_i hne
        exact htree p hp (fun he => hne (by rw [he]; rfl)) h
    · cases h
  | call callee arguments =>
    rcases bind_eq_error.1 h with h | ⟨nodes, -, h⟩
    · obtain ⟨⟨p, hp⟩, -, h⟩ := mem_of_mapM_eq_error h
      dsimp only at h
      split at h
      · cases h; exact .malformed line _
      · rename_i hne
        exact htree p hp (fun he => hne (by rw [he]; rfl)) h
    · cases h
  | refused fault => cases h; exact .malformed line _

/-- A statement is refused for its form or for that of a part. -/
theorem Form.refuses_of_build {line : Nat} {f : Form} {e : Error}
    {tree : (p : List Token) → p ∈ f.parts → Except Error Node} (hf : f.Sound)
    (htree : ∀ p hp, p ≠ [] → tree p hp = .error e → e.Refuses line) (h : f.build line tree = .error e) :
    e.Refuses line := by
  cases f with
  | refused fault => cases h; exact ⟨rfl, .inl hf⟩
  | simple head arguments => cases h
  | invoke invocation => exact Invocation.refuses_of_build htree h
  | result value =>
    rcases bind_eq_error.1 h with h | ⟨node, -, h⟩
    · exact htree value _ hf h
    · cases h
  | initialise depth name type value =>
    rcases bind_eq_error.1 h with h | ⟨node, -, h⟩
    · exact htree value _ hf h
    · cases h
  | expression items =>
    rcases bind_eq_error.1 h with h | ⟨pieces, -, h⟩
    · obtain ⟨⟨item, hi⟩, -, h⟩ := mem_of_mapM_eq_error h
      cases item with
      | token t => cases h
      | invoke invocation =>
        exact Invocation.refuses_of_build (fun p hp => htree p _) (map_eq_error.1 h)
    · obtain ⟨hline, hresolve⟩ := atLine_eq_error.1 h
      exact ⟨hline, ofStatement_of_resolve hresolve⟩

/-- A statement with tokens that is refused has an error on its line, with a fault of its text or a number of
values other than one. -/
theorem refuses_of_ofTokens {line : Nat} {e : Error} : ∀ {tokens : List Token}, tokens ≠ [] →
    Node.ofTokens line tokens = .error e → e.Refuses line
  | [], hne, _ => absurd rfl hne
  | first :: rest, _, h => by
    rw [Node.ofTokens] at h
    exact Form.refuses_of_build (Form.sound_ofTokens first rest)
      (fun p hp hne he => refuses_of_ofTokens hne he) h
termination_by tokens => tokens.length
decreasing_by exact Form.length_lt_of_mem_parts hp

end WordMachine.Cflat

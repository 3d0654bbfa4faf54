/-
Dividing source text into statements of tokens.

A statement ends at a semicolon outside parentheses, at a brace, and at the end of the text. Each step
of the scanner leaves less text, so that reading a text ends.
-/
import WordMachine.Cflat.Statement.Scanner
import WordMachine.Result

namespace WordMachine.Cflat

namespace Scanner

/-! ## Every step shortens the text -/

theorem length_splitFraction (previous : Char) (cs : List Char) :
    (splitFraction previous cs).2.length ≤ cs.length := by
  induction cs generalizing previous with
  | nil => simp [splitFraction]
  | cons c cs ih =>
    rw [splitFraction]
    split
    · exact Nat.le_succ_of_le (ih c)
    · exact Nat.le_refl _

theorem length_skipComment {line line' : Nat} {cs rest : List Char}
    (h : skipComment line cs = .ok (line', rest)) : rest.length ≤ cs.length := by
  induction cs generalizing line with
  | nil => cases h
  | cons c cs ih =>
    rw [skipComment] at h
    split at h
    · cases h; simp; omega
    · exact Nat.le_succ_of_le (ih h)

theorem length_readCharacter {cs rest : List Char} {c : Char}
    (h : readCharacter cs = .ok (c, rest)) : rest.length ≤ cs.length := by
  unfold readCharacter at h
  split at h <;> repeat' split at h
  all_goals cases h
  all_goals simp
  all_goals omega

theorem length_readString {o : Options} {s s' : Scanner} {cs rest : List Char}
    (h : s.readString o cs = .ok (s', rest)) : rest.length ≤ cs.length := by
  fun_induction readString o s cs with
  | case1 => cases h
  | case2 => cases h
  | case3 s e cs value _ ih => exact Nat.le_succ_of_le (Nat.le_succ_of_le (ih h))
  | case4 => cases h
  | case5 => cases h; simp
  | case6 => cases h
  | case7 _ _ _ _ _ ih => exact Nat.le_succ_of_le (ih h)
  | case8 _ _ _ _ _ _ _ ih => exact Nat.le_succ_of_le (ih h)

theorem length_stepPlain {o : Options} {s s' : Scanner} {c : Char} {cs rest : List Char}
    (h : s.stepPlain o c cs = .ok (s', rest)) : rest.length ≤ cs.length := by
  unfold stepPlain at h
  repeat' split at h
  · obtain ⟨_, _, h⟩ := bind_eq_ok.1 h; cases h; simp
  · obtain ⟨_, _, h⟩ := bind_eq_ok.1 h; cases h; simp
  · obtain ⟨_, _, h⟩ := bind_eq_ok.1 h; cases h; simp
  · obtain ⟨_, _, h⟩ := bind_eq_ok.1 h; cases h; simp
  · obtain ⟨_, _, h⟩ := bind_eq_ok.1 h; cases h; simp
  · obtain ⟨_, _, h⟩ := bind_eq_ok.1 h; exact length_readString h
  · cases h
  · rename_i hc
    obtain ⟨_, _, h⟩ := bind_eq_ok.1 h; cases h; exact length_readCharacter hc
  · obtain ⟨_, _, h⟩ := bind_eq_ok.1 h; cases h; exact length_splitFraction _ _
  · obtain ⟨_, _, h⟩ := bind_eq_ok.1 h; cases h; simp
  · cases h; simp

theorem length_step {o : Options} {s s' : Scanner} {c : Char} {cs rest : List Char}
    (h : s.step o c cs = .ok (s', rest)) : rest.length ≤ cs.length := by
  unfold step at h
  repeat' split at h
  · obtain ⟨_, _, h⟩ := bind_eq_ok.1 h; cases h; exact (List.dropWhile_sublist _).length_le
  · obtain ⟨_, _, h⟩ := bind_eq_ok.1 h
    obtain ⟨_, hc, h⟩ := bind_eq_ok.1 h
    cases h
    exact Nat.le_trans (length_skipComment hc) (by simp)
  · cases h
  · exact length_stepPlain h
  · obtain ⟨_, _, h⟩ := bind_eq_ok.1 h; cases h; simp
  · obtain ⟨_, _, h⟩ := bind_eq_ok.1 h; cases h; simp
  · cases h; simp

/-! ## Whole texts -/

/-- Reads a text to its end. -/
def run (o : Options) (s : Scanner) : List Char → Except Error Scanner
  | [] => .ok s
  | c :: rest =>
    match _h : s.step o c rest with
    | .error e => .error e
    | .ok (s', rest') => run o s' rest'
termination_by cs => cs.length
decreasing_by exact Nat.lt_succ_of_le (length_step _h)

/-- Ends the text: every bracket has to be closed. -/
def finish (o : Options) (s : Scanner) : Except Error (List Statement) := do
  if s.parens ≠ 0 then throw (.malformed s.parenLine (.unbalanced '('))
  let s ← s.endStatement o false
  if s.depth ≠ 0 then throw (.malformed s.line (.unbalanced '\x7b'))
  return s.finished

end Scanner

/-- The statements of a source text. -/
def Statement.scan (o : Options) (source : String) : Except Error (List Statement) := do
  let s ← Scanner.run o {} source.toList
  s.finish o

end WordMachine.Cflat

/-
Branches: what joining each `if` with its `else` does to a forest of statements. It succeeds exactly if in every
block each `else` stands right after an `if`. The result is described by `Merged`: each such pair becomes one
node with two branches, everything else keeps its place. No information is lost (`splitBranches` takes the pairs
apart again), and nothing is left to be joined a second time.
-/
import WordMachine.Cflat.Tree
import WordMachine.Proofs.Result

namespace WordMachine.Cflat

/-- The node has this name. -/
def Node.IsNamed (n : Node) (name : Token) : Prop := n.head.name? = some name

instance (n : Node) (name : Token) : Decidable (n.IsNamed name) := inferInstanceAs (Decidable (_ = _))

/-! ## Blocks -/

/-- The second list is the first one or the block of a statement in it, at any depth. -/
inductive BlockOf : List Node → List Node → Prop where
  | self (ns : List Node) : BlockOf ns ns
  | inside {ns block : List Node} {n : Node} (hn : n ∈ ns) (h : BlockOf n.statements block) : BlockOf ns block

/-- The property holds of every list of statements in a forest, at every depth. -/
def EveryBlock (P : List Node → Prop) (ns : List Node) : Prop := ∀ block, BlockOf ns block → P block

theorem everyBlock_iff {P : List Node → Prop} {ns : List Node} :
    EveryBlock P ns ↔ P ns ∧ ∀ n ∈ ns, EveryBlock P n.statements := by
  constructor
  · exact fun h => ⟨h ns (.self ns), fun n hn block hblock => h block (.inside hn hblock)⟩
  · rintro ⟨hself, hinside⟩ block (_ | ⟨hn, hblock⟩)
    · exact hself
    · exact hinside _ hn block hblock

/-- The property holds of every statement in a forest, at every depth. -/
def EveryStatement (Q : Node → Prop) : List Node → Prop := EveryBlock fun block => ∀ n ∈ block, Q n

section

variable {Q : Node → Prop} {n : Node} {ns : List Node}

theorem everyStatement_nil : EveryStatement Q [] :=
  everyBlock_iff.2 ⟨fun _ h => by (cases h), fun _ h => by (cases h)⟩

theorem everyStatement_cons :
    EveryStatement Q (n :: ns) ↔ (Q n ∧ EveryStatement Q n.statements) ∧ EveryStatement Q ns := by
  unfold EveryStatement
  rw [everyBlock_iff, @everyBlock_iff _ ns, List.forall_mem_cons, List.forall_mem_cons]
  exact and_and_and_comm

end

/-! ## Where an `else` may stand -/

/-- Every `else` of the list stands right after an `if`. -/
def ElseAfterIf (block : List Node) : Prop :=
  ∀ before n after, block = before ++ n :: after → n.IsNamed "else" →
    ∃ m, before.getLast? = some m ∧ m.IsNamed "if"

theorem elseAfterIf_nil : ElseAfterIf [] := by
  intro before n after h
  simp at h

theorem not_isNamed_if {n : Node} (h : n.IsNamed "else") : ¬n.IsNamed "if" :=
  fun hif => absurd (h.symm.trans hif) (by decide)

/-- The first node of the list is an `else`. -/
def StartsWithElse (ns : List Node) : Prop := ∃ n, ns.head? = some n ∧ n.IsNamed "else"

/-- A node in front that is no `if` with an `else`. -/
theorem elseAfterIf_cons {n : Node} {ns : List Node} (h : ¬StartsWithElse ns) :
    ElseAfterIf (n :: ns) ↔ ¬n.IsNamed "else" ∧ ElseAfterIf ns := by
  constructor
  · refine fun hblock => ⟨fun hn => ?_, fun before m after heq hm => ?_⟩
    · obtain ⟨m, hm, -⟩ := hblock [] n ns rfl hn
      cases hm
    · obtain ⟨x, hx, hif⟩ := hblock (n :: before) m after (by rw [heq]; rfl) hm
      cases before with
      | nil => exact absurd ⟨m, by rw [heq]; rfl, hm⟩ h
      | cons b before => exact ⟨x, by rwa [List.getLast?_cons_cons] at hx, hif⟩
  · rintro ⟨hn, hblock⟩ before m after heq hm
    cases before with
    | nil =>
      cases heq
      exact absurd hm hn
    | cons b before =>
      cases heq
      obtain ⟨x, hx, hif⟩ := hblock before m after rfl hm
      cases before with
      | nil => cases hx
      | cons c before => exact ⟨x, by rwa [List.getLast?_cons_cons], hif⟩

/-- An `if` and an `else` in front. -/
theorem elseAfterIf_pair {i e : Node} {ns : List Node} (hi : i.IsNamed "if") (he : e.IsNamed "else") :
    ElseAfterIf (i :: e :: ns) ↔ ElseAfterIf ns := by
  constructor
  · intro hblock before n after heq hn
    obtain ⟨x, hx, hif⟩ := hblock (i :: e :: before) n after (by rw [heq]; rfl) hn
    rw [List.getLast?_cons_cons] at hx
    cases before with
    | nil =>
      cases hx
      exact absurd hif (not_isNamed_if he)
    | cons b before => exact ⟨x, by rwa [List.getLast?_cons_cons] at hx, hif⟩
  · intro hblock before n after heq hn
    cases before with
    | nil =>
      cases heq
      exact absurd hi (not_isNamed_if hn)
    | cons b before =>
      cases before with
      | nil =>
        cases heq
        exact ⟨i, rfl, hi⟩
      | cons c before =>
        cases heq
        obtain ⟨x, hx, hif⟩ := hblock before n after rfl hn
        cases before with
        | nil => cases hx
        | cons d before => exact ⟨x, by rwa [List.getLast?_cons_cons, List.getLast?_cons_cons], hif⟩

/-! ## One step -/

theorem refuseElse_eq_ok {n : Node} : refuseElse n.head n.line = .ok () ↔ ¬n.IsNamed "else" := by
  unfold refuseElse
  split
  · rename_i h
    exact ⟨fun h => by (cases h), fun hne => absurd h hne⟩
  · rename_i h
    exact ⟨fun _ => h, fun _ => rfl⟩

/-- A node that is no `if` with an `else` after it keeps all but its block. -/
theorem mergeBranches_cons {n : Node} {ns : List Node} (h : ¬(n.IsNamed "if" ∧ StartsWithElse ns)) :
    mergeBranches (n :: ns) = refuseElse n.head n.line >>= fun _ => mergeBranches n.statements >>= fun body =>
      mergeBranches ns >>= fun rest => .ok (n.withStatements body :: rest) := by
  obtain ⟨head, line, arguments, body⟩ := n
  cases ns with
  | nil =>
    rw [mergeBranches, mergeBranches]
    rfl
  | cons next rest =>
    obtain ⟨nextHead, nextLine, nextArguments, nextBody⟩ := next
    rw [mergeBranches]
    refine bind_congr fun _ => bind_congr fun body => ?_
    exact if_neg fun hpair => h ⟨hpair.1, _, rfl, hpair.2⟩

/-- An `if` and the `else` after it become one node. -/
theorem mergeBranches_pair {i e : Node} {ns : List Node} (hi : i.IsNamed "if") (he : e.IsNamed "else") :
    mergeBranches (i :: e :: ns) = mergeBranches i.statements >>= fun body =>
      mergeBranches e.statements >>= fun other => mergeBranches ns >>= fun rest =>
        .ok (joinBranches i.head i.line i.arguments body e.line other :: rest) := by
  have hrefuse := refuseElse_eq_ok.2 fun h => not_isNamed_if h hi
  obtain ⟨head, line, arguments, body⟩ := i
  obtain ⟨elseHead, elseLine, elseArguments, other⟩ := e
  have hpair : head.name? = some "if" ∧ elseHead.name? = some "else" := ⟨hi, he⟩
  rw [mergeBranches, show refuseElse head line = .ok () from hrefuse]
  simp only [if_pos hpair]
  rfl

/-! ## The merged forest -/

/-- The second forest is the first one with each `if` and the `else` after it as one node, whose two statements
hold the blocks of both. Every other node keeps its place and all but its block. -/
inductive Merged : List Node → List Node → Prop where
  | nil : Merged [] []
  | pair {i e : Node} {body other ns ms : List Node} (hi : i.IsNamed "if") (he : e.IsNamed "else")
      (hbody : Merged i.statements body) (hother : Merged e.statements other) (hrest : Merged ns ms) :
      Merged (i :: e :: ns) (.mk (i.head.rename "ifelse") i.line i.arguments
        [.mk (.construct "#_then") i.line [] body, .mk (.construct "#_else") e.line [] other] :: ms)
  | other {n : Node} {body ns ms : List Node} (hn : ¬n.IsNamed "else")
      (hnext : ¬(n.IsNamed "if" ∧ StartsWithElse ns)) (hbody : Merged n.statements body) (hrest : Merged ns ms) :
      Merged (n :: ns) (n.withStatements body :: ms)

theorem mergeBranches_of_merged {ns ms : List Node} (h : Merged ns ms) : mergeBranches ns = .ok ms := by
  induction h with
  | nil => rw [mergeBranches]
  | pair hi he _ _ _ ihbody ihother ihrest =>
    rw [mergeBranches_pair hi he, ihbody, ihother, ihrest]
    rfl
  | other hn hnext _ _ ihbody ihrest =>
    rw [mergeBranches_cons hnext, refuseElse_eq_ok.2 hn, ihbody, ihrest]
    rfl

/-- Forests are taken apart as they are merged: a pair at a time where there is one. -/
theorem forest_induction {motive : List Node → Prop} (nil : motive [])
    (pair : ∀ i e ns, i.IsNamed "if" → e.IsNamed "else" → motive i.statements → motive e.statements → motive ns →
      motive (i :: e :: ns))
    (other : ∀ n ns, ¬(n.IsNamed "if" ∧ StartsWithElse ns) → motive n.statements → motive ns → motive (n :: ns))
    (ns : List Node) : motive ns := by
  fun_induction mergeBranches ns with
  | case1 => exact nil
  | case2 head line arguments body ih =>
    refine other _ [] (fun h => ?_) ih nil
    obtain ⟨-, n, hn, -⟩ := h
    cases hn
  | case3 head line arguments body nextHead nextLine nextArguments nextBody rest ihbody ihother ihrest ihnext =>
    by_cases hpair : head.name? = some "if" ∧ nextHead.name? = some "else"
    · exact pair _ _ rest hpair.1 hpair.2 ihbody ihother ihrest
    · refine other _ _ (fun h => ?_) ihbody ihnext
      obtain ⟨hif, n, hn, helse⟩ := h
      cases hn
      exact hpair ⟨hif, helse⟩

theorem merged_of_mergeBranches (ns : List Node) : ∀ {ms : List Node}, mergeBranches ns = .ok ms → Merged ns ms := by
  induction ns using forest_induction with
  | nil =>
    intro ms h
    rw [mergeBranches] at h
    cases h
    exact .nil
  | pair i e ns hi he ihbody ihother ihrest =>
    intro ms h
    rw [mergeBranches_pair hi he] at h
    obtain ⟨body, hbody, h⟩ := bind_eq_ok.1 h
    obtain ⟨other, hother, h⟩ := bind_eq_ok.1 h
    obtain ⟨rest, hrest, h⟩ := bind_eq_ok.1 h
    cases h
    exact .pair hi he (ihbody hbody) (ihother hother) (ihrest hrest)
  | other n ns hnext ihbody ihrest =>
    intro ms h
    rw [mergeBranches_cons hnext] at h
    obtain ⟨_, hrefuse, h⟩ := bind_eq_ok.1 h
    obtain ⟨body, hbody, h⟩ := bind_eq_ok.1 h
    obtain ⟨rest, hrest, h⟩ := bind_eq_ok.1 h
    cases h
    exact .other (refuseElse_eq_ok.1 hrefuse) hnext (ihbody hbody) (ihrest hrest)

theorem mergeBranches_eq_ok_iff {ns ms : List Node} : mergeBranches ns = .ok ms ↔ Merged ns ms :=
  ⟨merged_of_mergeBranches ns, mergeBranches_of_merged⟩

/-! ## Success -/

/-- A list whose first node is an `else` is refused. -/
theorem not_startsWithElse {ns : List Node} (h : ElseAfterIf ns) : ¬StartsWithElse ns := by
  rintro ⟨n, hn, helse⟩
  obtain ⟨after, rfl⟩ := List.head?_eq_some_iff.1 hn
  obtain ⟨m, hm, -⟩ := h [] n after rfl helse
  cases hm

theorem elseAfterIf_of_merged {ns ms : List Node} (h : Merged ns ms) : EveryBlock ElseAfterIf ns := by
  induction h with
  | nil => exact everyBlock_iff.2 ⟨elseAfterIf_nil, fun _ h => by (cases h)⟩
  | pair hi he _ _ _ ihbody ihother ihrest =>
    obtain ⟨hns, hinside⟩ := everyBlock_iff.1 ihrest
    refine everyBlock_iff.2 ⟨(elseAfterIf_pair hi he).2 hns, ?_⟩
    rw [List.forall_mem_cons, List.forall_mem_cons]
    exact ⟨ihbody, ihother, hinside⟩
  | other hn hnext _ _ ihbody ihrest =>
    obtain ⟨hns, hinside⟩ := everyBlock_iff.1 ihrest
    refine everyBlock_iff.2 ⟨?_, List.forall_mem_cons.2 ⟨ihbody, hinside⟩⟩
    exact (elseAfterIf_cons (not_startsWithElse hns)).2 ⟨hn, hns⟩

theorem exists_merged (ns : List Node) : EveryBlock ElseAfterIf ns → ∃ ms, Merged ns ms := by
  induction ns using forest_induction with
  | nil => exact fun _ => ⟨[], .nil⟩
  | pair i e ns hi he ihbody ihother ihrest =>
    intro h
    obtain ⟨hself, hinside⟩ := everyBlock_iff.1 h
    rw [List.forall_mem_cons, List.forall_mem_cons] at hinside
    obtain ⟨body, hbody⟩ := ihbody hinside.1
    obtain ⟨other, hother⟩ := ihother hinside.2.1
    obtain ⟨ms, hrest⟩ := ihrest (everyBlock_iff.2 ⟨(elseAfterIf_pair hi he).1 hself, hinside.2.2⟩)
    exact ⟨_, .pair hi he hbody hother hrest⟩
  | other n ns hnext ihbody ihrest =>
    intro h
    obtain ⟨hself, hinside⟩ := everyBlock_iff.1 h
    rw [List.forall_mem_cons] at hinside
    have hstart : ¬StartsWithElse ns := by
      rintro ⟨m, hm, helse⟩
      obtain ⟨after, rfl⟩ := List.head?_eq_some_iff.1 hm
      obtain ⟨x, hx, hif⟩ := hself [n] m after rfl helse
      cases hx
      exact hnext ⟨hif, m, rfl, helse⟩
    obtain ⟨hn, hns⟩ := (elseAfterIf_cons hstart).1 hself
    obtain ⟨body, hbody⟩ := ihbody hinside.1
    obtain ⟨ms, hrest⟩ := ihrest (everyBlock_iff.2 ⟨hns, hinside.2⟩)
    exact ⟨_, .other hn hnext hbody hrest⟩

/-! ## Nothing is left to merge -/

theorem name?_rename {head : Head} (h : head.name? = some "if") (name : Token) :
    (head.rename name).name? = some name := by
  cases head with
  | declare _ => exact absurd (Option.some.inj h) (by decide)
  | initialise _ => exact absurd (Option.some.inj h) (by decide)
  | literal _ => cases h
  | _ => rfl

theorem everyStatement_not_else {ns ms : List Node} (h : Merged ns ms) : EveryStatement (¬·.IsNamed "else") ms := by
  induction h with
  | nil => exact everyStatement_nil
  | @pair i e body other ns ms hi _ _ _ _ ihbody ihother ihrest =>
    have hname : (i.head.rename "ifelse").name? ≠ some "else" := by
      rw [name?_rename hi]
      decide
    have hthen : (Head.construct "#_then").name? ≠ some "else" := by decide
    have helse : (Head.construct "#_else").name? ≠ some "else" := by decide
    refine everyStatement_cons.2 ⟨⟨hname, ?_⟩, ihrest⟩
    exact everyStatement_cons.2 ⟨⟨hthen, ihbody⟩, everyStatement_cons.2 ⟨⟨helse, ihother⟩, everyStatement_nil⟩⟩
  | other hn _ _ _ ihbody ihrest => exact everyStatement_cons.2 ⟨⟨hn, ihbody⟩, ihrest⟩

/-- A forest without an `else` is merged already. -/
theorem merged_self (ns : List Node) : EveryStatement (¬·.IsNamed "else") ns → Merged ns ns := by
  induction ns using forest_induction with
  | nil => exact fun _ => .nil
  | pair i e ns _ he _ _ _ => exact fun h => absurd he (everyStatement_cons.1 (everyStatement_cons.1 h).2).1.1
  | other n ns hnext ihbody ihrest =>
    intro h
    obtain ⟨⟨hn, hbody⟩, hns⟩ := everyStatement_cons.1 h
    have hself : n.withStatements n.statements = n := by cases n; rfl
    have hmerged := Merged.other hn hnext (ihbody hbody) (ihrest hns)
    rwa [hself] at hmerged

/-! ## Taking pairs apart -/

/-- Takes each node with two branches apart into an `if` and an `else`, in every block. -/
def splitBranches : List Node → List Node
  | [] => []
  | .mk head line arguments [.mk thenHead thenLine thenArguments body, .mk elseHead elseLine elseArguments other] ::
      rest =>
    if head.name? = some "ifelse" ∧ thenHead.name? = some "#_then" ∧ elseHead.name? = some "#_else" then
      .mk (head.rename "if") line arguments (splitBranches body) ::
        .mk (.call "else") elseLine [] (splitBranches other) :: splitBranches rest
    else
      .mk head line arguments (splitBranches
        [.mk thenHead thenLine thenArguments body, .mk elseHead elseLine elseArguments other]) :: splitBranches rest
  | .mk head line arguments body :: rest => .mk head line arguments (splitBranches body) :: splitBranches rest
termination_by forest => sizeOf forest
decreasing_by all_goals simp only [List.cons.sizeOf_spec, Node.mk.sizeOf_spec]; omega

/-- A statement before branches are merged: it is no branch, and an `else` has no arguments. -/
structure Node.Unmerged (n : Node) : Prop where
  not_then : ¬n.IsNamed "#_then"
  not_else : ¬n.IsNamed "#_else"
  else_eq : n.IsNamed "else" → n.head = .call "else" ∧ n.arguments = []

theorem rename_rename {head : Head} (h : head.name? = some "if") (name : Token) :
    (head.rename name).rename "if" = head := by
  cases head with
  | declare _ => rfl
  | initialise _ => rfl
  | literal _ => rfl
  | _ => cases h; rfl

/-- A node with no branch in its block is not taken apart. -/
theorem splitBranches_cons {n : Node} {ns : List Node} (h : ∀ m ∈ n.statements, ¬m.IsNamed "#_then") :
    splitBranches (n :: ns) = n.withStatements (splitBranches n.statements) :: splitBranches ns := by
  obtain ⟨head, line, arguments, body⟩ := n
  -- the number of statements in the block decides on the equation
  rcases body with _ | ⟨⟨thenHead, thenLine, thenArguments, thenBody⟩, _ | ⟨⟨elseHead, elseLine, elseArguments, other⟩,
    _ | ⟨x, body⟩⟩⟩
  · rw [splitBranches]
    · rfl
    · simp
  · rw [splitBranches]
    · rfl
    · simp
  · have hthen : thenHead.name? ≠ some "#_then" := h _ (List.mem_cons_self ..)
    rw [splitBranches, if_neg fun hpair => hthen hpair.2.1]
    rfl
  · rw [splitBranches]
    · rfl
    · simp

/-- The merged statements are branches only below the nodes that were joined. -/
theorem not_then_of_merged {ns ms : List Node} (h : Merged ns ms) (hns : ∀ n ∈ ns, ¬n.IsNamed "#_then") :
    ∀ m ∈ ms, ¬m.IsNamed "#_then" := by
  induction h with
  | nil => exact hns
  | pair hi _ _ _ _ _ _ ihrest =>
    rw [List.forall_mem_cons, List.forall_mem_cons] at hns
    refine List.forall_mem_cons.2 ⟨fun hthen => ?_, ihrest hns.2.2⟩
    exact absurd ((name?_rename hi _).symm.trans hthen) (by decide)
  | other _ _ _ _ _ ihrest =>
    rw [List.forall_mem_cons] at hns
    exact List.forall_mem_cons.2 ⟨hns.1, ihrest hns.2⟩

/-- Taking the pairs apart gives the forest back. -/
theorem splitBranches_of_merged {ns ms : List Node} (h : Merged ns ms) (hns : EveryStatement Node.Unmerged ns) :
    splitBranches ms = ns := by
  induction h with
  | nil => rw [splitBranches]
  | @pair i e body other ns ms hi he _ _ _ ihbody ihother ihrest =>
    obtain ⟨⟨-, hbody⟩, hns⟩ := everyStatement_cons.1 hns
    obtain ⟨⟨hunmerged, hother⟩, hns⟩ := everyStatement_cons.1 hns
    rw [splitBranches, if_pos ⟨name?_rename hi _, rfl, rfl⟩, rename_rename hi, ihbody hbody, ihother hother, ihrest hns]
    obtain ⟨hhead, harguments⟩ := hunmerged.else_eq he
    rw [← hhead, ← harguments]
    cases i
    cases e
    rfl
  | @other n body ns ms hn _ hmerged _ ihbody ihrest =>
    obtain ⟨⟨hunmerged, hbody⟩, hns⟩ := everyStatement_cons.1 hns
    have hthen : ∀ m ∈ (n.withStatements body).statements, ¬m.IsNamed "#_then" :=
      not_then_of_merged hmerged fun m hm => ((everyBlock_iff.1 hbody).1 m hm).not_then
    rw [splitBranches_cons hthen, ihrest hns]
    change n.withStatements (splitBranches body) :: ns = _
    rw [ihbody hbody]
    cases n
    rfl

/-- Statements before branches are merged can be merged exactly if every `else` stands right after an `if`, in
every block. What results has no `else` any more, is `Merged` from the statements, gives them back when its pairs
are taken apart, and stays as it is when merged again. -/
theorem mergeBranches_exact {forest : List Node} (h : EveryStatement Node.Unmerged forest) :
    ((∃ merged, mergeBranches forest = .ok merged) ↔ EveryBlock ElseAfterIf forest) ∧
      ∀ merged, mergeBranches forest = .ok merged →
        EveryStatement (¬·.IsNamed "else") merged ∧ Merged forest merged ∧ splitBranches merged = forest ∧
          mergeBranches merged = .ok merged := by
  refine ⟨⟨fun hok => ?_, fun hpaired => ?_⟩, fun merged hok => ?_⟩
  · obtain ⟨merged, hok⟩ := hok
    exact elseAfterIf_of_merged (mergeBranches_eq_ok_iff.1 hok)
  · obtain ⟨merged, hmerged⟩ := exists_merged forest hpaired
    exact ⟨merged, mergeBranches_eq_ok_iff.2 hmerged⟩
  · have hmerged := mergeBranches_eq_ok_iff.1 hok
    have hnone := everyStatement_not_else hmerged
    exact ⟨hnone, hmerged, splitBranches_of_merged hmerged h, mergeBranches_eq_ok_iff.2 (merged_self merged hnone)⟩

/-- An `if` with an `else` in the block of an `if` with an `else`, and a statement after them. -/
theorem mergeBranches_exact_nested :
    let x : Node := .leaf (.read "x") 2
    let forest : List Node := [.mk (.call "if") 1 [x] [.mk (.call "if") 2 [x] [x], .mk (.call "else") 3 [] []],
      .mk (.call "else") 4 [] [x], x]
    let inner : Node := .mk (.call "ifelse") 2 [x]
      [.mk (.construct "#_then") 2 [] [x], .mk (.construct "#_else") 3 [] []]
    let merged : List Node := [.mk (.call "ifelse") 1 [x]
      [.mk (.construct "#_then") 1 [] [inner], .mk (.construct "#_else") 4 [] [x]], x]
    EveryStatement Node.Unmerged forest ∧ mergeBranches forest = .ok merged ∧ EveryBlock ElseAfterIf forest ∧
      Merged forest merged ∧ splitBranches merged = forest ∧ mergeBranches merged = .ok merged := by
  intro x forest inner merged
  have hread : x.Unmerged := ⟨by decide, by decide, fun h => absurd h (by decide)⟩
  have hif (line : Nat) (body : List Node) : (Node.mk (.call "if") line [x] body).Unmerged :=
    ⟨fun h => absurd (Option.some.inj h) (by decide), fun h => absurd (Option.some.inj h) (by decide),
      fun h => absurd (Option.some.inj h) (by decide)⟩
  have helse (line : Nat) (body : List Node) : (Node.mk (.call "else") line [] body).Unmerged :=
    ⟨fun h => absurd (Option.some.inj h) (by decide), fun h => absurd (Option.some.inj h) (by decide),
      fun _ => ⟨rfl, rfl⟩⟩
  have hx : EveryStatement Node.Unmerged [x] :=
    everyStatement_cons.2 ⟨⟨hread, everyStatement_nil⟩, everyStatement_nil⟩
  have hforest : EveryStatement Node.Unmerged forest :=
    everyStatement_cons.2 ⟨⟨hif 1 _, everyStatement_cons.2 ⟨⟨hif 2 _, hx⟩,
      everyStatement_cons.2 ⟨⟨helse 3 _, everyStatement_nil⟩, everyStatement_nil⟩⟩⟩,
      everyStatement_cons.2 ⟨⟨helse 4 _, hx⟩, hx⟩⟩
  have hkept : Merged [x] [x] := .other (n := x) (by decide) (fun h => absurd h.1 (by decide)) .nil .nil
  have hok : mergeBranches forest = .ok merged :=
    mergeBranches_of_merged (.pair rfl rfl (.pair rfl rfl hkept .nil .nil) hkept hkept)
  obtain ⟨hsucceeds, hresult⟩ := mergeBranches_exact hforest
  obtain ⟨-, hmerged, hsplit, hagain⟩ := hresult merged hok
  exact ⟨hforest, hok, hsucceeds.1 ⟨merged, hok⟩, hmerged, hsplit, hagain⟩

end WordMachine.Cflat

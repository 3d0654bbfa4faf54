/-
Who owns a statement. By the braces, a statement belongs to the header of the innermost braces around it
that have one. The tree of a program goes by depths alone: a header takes what comes after it and lies
deeper, so that it also takes the statements of bare braces after its own. Both trees are the same if and
only if the first statement after the braces of each header lies no deeper than the header.
-/
import WordMachine.Proofs.Cflat.Braces
import WordMachine.Proofs.Cflat.RoundTrip
import Mathlib.Data.List.TakeWhile

namespace WordMachine.Cflat

def Statement.tree (s : Statement) : Except Error Node := Node.ofTokens s.line s.tokens

namespace Block

/-- The trees of a block by its braces: a header owns the statements between its braces, those between
bare braces stand in the block around these. -/
def tree : Block → Except Error (List Node)
  | .empty => return []
  | .simple s rest => return (← s.tree) :: (← rest.tree)
  | .headed header body rest => return (← header.tree).withStatements (← body.tree) :: (← rest.tree)
  | .bare body rest => return (← body.tree) ++ (← rest.tree)

/-- Is the first statement after the braces of each header no deeper than the header? The statements
`after` come after the block. -/
def settled : Block → List Statement → Bool
  | .empty, _ => true
  | .simple _ rest, after => rest.settled after
  | .headed header body rest, after =>
    body.settled (rest.statements ++ after) && (rest.statements ++ after).head?.all (·.depth ≤ header.depth) &&
      rest.settled after
  | .bare body rest, after => body.settled (rest.statements ++ after) && rest.settled after

end Block

/-! ## Statements whose trees are known -/

/-- The trees of statements stand beside the statements. -/
theorem buildAll_eq_ok_iff : ∀ {statements : List Statement} {nodes : List (Statement × Node)},
    buildAll statements = .ok nodes ↔ nodes.map (·.1) = statements ∧ ∀ p ∈ nodes, p.1.tree = .ok p.2
  | [], nodes => by
    rw [List.map_eq_nil_iff]
    constructor
    · intro h
      cases h
      exact ⟨rfl, List.forall_mem_nil _⟩
    · rintro ⟨rfl, -⟩
      rfl
  | s :: ss, nodes => by
    rw [buildAll, List.mapM_cons]
    constructor
    · intro h
      obtain ⟨p, hp, h⟩ := bind_eq_ok.1 h
      obtain ⟨n, hn, hp⟩ := bind_eq_ok.1 hp
      obtain ⟨ps, hps, h⟩ := bind_eq_ok.1 h
      cases hp
      cases h
      obtain ⟨hss, htrees⟩ := buildAll_eq_ok_iff.1 hps
      exact ⟨congrArg _ hss, List.forall_mem_cons.2 ⟨hn, htrees⟩⟩
    · rintro ⟨hss, htrees⟩
      obtain ⟨p, ps, rfl, rfl, hps⟩ := List.map_eq_cons_iff.1 hss
      rw [List.forall_mem_cons] at htrees
      exact bind_eq_ok.2 ⟨p, bind_eq_ok.2 ⟨p.2, htrees.1, rfl⟩,
        bind_eq_ok.2 ⟨ps, buildAll_eq_ok_iff.2 ⟨hps, htrees.2⟩, rfl⟩⟩

theorem exists_of_buildAll_eq_error {statements : List Statement} {e : Error} (h : buildAll statements = .error e) :
    ∃ s ∈ statements, s.tree = .error e := by
  obtain ⟨s, hs, h⟩ := mem_of_mapM_eq_error h
  rcases bind_eq_error.1 h with h | ⟨_, -, h⟩
  · exact ⟨s, hs, h⟩
  · cases h

section

variable (f : Statement → Node)

def withTrees (ss : List Statement) : List (Statement × Node) := ss.map fun s => (s, f s)

theorem exists_withTrees {statements : List Statement} {nodes : List (Statement × Node)}
    (h : buildAll statements = .ok nodes) :
    ∃ f : Statement → Node, (∀ s ∈ statements, s.tree = .ok (f s)) ∧ nodes = withTrees f statements := by
  obtain ⟨rfl, htrees⟩ := buildAll_eq_ok_iff.1 h
  let f : Statement → Node := fun s => s.tree.toOption.getD (.leaf (.raw "") 0)
  have hf : ∀ p ∈ nodes, f p.1 = p.2 := by
    intro p hp
    simp only [f, htrees p hp]
    rfl
  refine ⟨f, fun s hs => ?_, ?_⟩
  · obtain ⟨p, hp, rfl⟩ := List.mem_map.1 hs
    rw [hf p hp, htrees p hp]
  · rw [withTrees, List.map_map]
    conv_lhs => rw [← List.map_id nodes]
    exact List.map_congr_left fun p hp => by rw [Function.comp_apply, hf p hp]; rfl

theorem buildAll_of_tree {f : Statement → Node} {statements : List Statement}
    (h : ∀ s ∈ statements, s.tree = .ok (f s)) : buildAll statements = .ok (withTrees f statements) := by
  refine buildAll_eq_ok_iff.2 ⟨?_, List.forall_mem_map.2 h⟩
  rw [withTrees, List.map_map]
  exact List.map_id statements

namespace Block

def treeWith : Block → List Node
  | .empty => []
  | .simple s rest => f s :: rest.treeWith
  | .headed header body rest => (f header).withStatements body.treeWith :: rest.treeWith
  | .bare body rest => body.treeWith ++ rest.treeWith

theorem tree_eq {f : Statement → Node} : ∀ {b : Block}, (∀ s ∈ b.statements, s.tree = .ok (f s)) →
    b.tree = .ok (b.treeWith f)
  | .empty, _ => rfl
  | .simple s rest, h => by
    rw [statements, List.forall_mem_cons] at h
    rw [tree, h.1, tree_eq h.2]
    rfl
  | .headed header body rest, h => by
    rw [statements, List.forall_mem_cons, List.forall_mem_append] at h
    rw [tree, h.1, tree_eq h.2.1, tree_eq h.2.2]
    rfl
  | .bare body rest, h => by
    rw [statements, List.forall_mem_append] at h
    rw [tree, tree_eq h.1, tree_eq h.2]
    rfl

/-- The trees of a block with their depths. -/
def outline : Block → List (Nat × Node)
  | .empty => []
  | .simple s rest => (s.depth, f s) :: rest.outline
  | .headed header body rest => (header.depth, (f header).withStatements (body.treeWith f)) :: rest.outline
  | .bare body rest => body.outline ++ rest.outline

theorem map_outline : ∀ b : Block, (b.outline f).map (·.2) = b.treeWith f
  | .empty => rfl
  | .simple s rest => by rw [outline, List.map_cons, map_outline rest, treeWith]
  | .headed header body rest => by rw [outline, List.map_cons, map_outline rest, treeWith]
  | .bare body rest => by rw [outline, List.map_append, map_outline body, map_outline rest, treeWith]

theorem le_of_mem_outline : ∀ {b : Block} {depth : Nat}, b.Placed depth → ∀ p ∈ b.outline f, depth ≤ p.1
  | .empty, _, _, p, hp => by cases hp
  | .simple s rest, _, h, p, hp => by
    rcases List.mem_cons.1 hp with rfl | hp
    · exact Nat.le_of_eq h.1.1.symm
    · exact le_of_mem_outline h.2 p hp
  | .headed header body rest, _, h, p, hp => by
    rcases List.mem_cons.1 hp with rfl | hp
    · exact Nat.le_of_eq h.1.1.symm
    · exact le_of_mem_outline h.2.2 p hp
  | .bare body rest, _, h, p, hp => by
    rcases List.mem_append.1 hp with hp | hp
    · exact Nat.le_of_succ_le (le_of_mem_outline h.1 p hp)
    · exact le_of_mem_outline h.2 p hp

end Block

/-! ## Depths -/

/-- The trees at the front that lie deeper. -/
def inner (depth : Nat) (trees : List (Nat × Node)) : List (Nat × Node) := trees.takeWhile (depth < ·.1)

/-- The trees from the first on that lies no deeper. -/
def outer (depth : Nat) (trees : List (Nat × Node)) : List (Nat × Node) := trees.dropWhile (depth < ·.1)

theorem inner_append_outer (depth : Nat) (trees : List (Nat × Node)) : inner depth trees ++ outer depth trees = trees :=
  List.takeWhile_append_dropWhile

theorem inner_append {depth : Nat} {trees : List (Nat × Node)} (h : outer depth trees = [])
    (others : List (Nat × Node)) : inner depth (trees ++ others) = trees ++ inner depth others ∧
      outer depth (trees ++ others) = outer depth others := by
  have hdeeper := List.dropWhile_eq_nil_iff.1 h
  exact ⟨List.takeWhile_append_of_pos hdeeper, List.dropWhile_append_of_pos hdeeper⟩

theorem outer_append {depth : Nat} {trees : List (Nat × Node)} (h : outer depth trees ≠ [])
    (others : List (Nat × Node)) : inner depth (trees ++ others) = inner depth trees ∧
      outer depth (trees ++ others) = outer depth trees ++ others := by
  have hempty : ¬(outer depth trees).isEmpty := fun he => h (List.isEmpty_iff.1 he)
  have houter : outer depth (trees ++ others) = outer depth trees ++ others := by
    rw [outer, List.dropWhile_append]
    exact if_neg hempty
  refine ⟨?_, houter⟩
  have hsplit := inner_append_outer depth (trees ++ others)
  rw [houter, ← List.append_assoc, List.append_left_inj] at hsplit
  exact List.append_cancel_right (hsplit.trans (inner_append_outer depth trees).symm)

theorem le_of_mem_head?_outer (depth : Nat) (trees : List (Nat × Node)) :
    ∀ p ∈ (outer depth trees).head?, p.1 ≤ depth := by
  intro p hp
  have h := List.head?_dropWhile_not (fun p : Nat × Node => decide (depth < p.1)) trees
  rw [show (trees.dropWhile fun p => decide (depth < p.1)).head? = some p from hp] at h
  simpa using h

theorem outer_eq_self {depth : Nat} {trees : List (Nat × Node)} (h : ∀ p ∈ trees.head?, p.1 ≤ depth) :
    inner depth trees = [] ∧ outer depth trees = trees := by
  cases trees with
  | nil => exact ⟨rfl, rfl⟩
  | cons p ps =>
    have hp : ¬depth < p.1 := Nat.not_lt.2 (h p rfl)
    simp [inner, outer, hp]

/-- The first tree has the depth of the first statement. -/
theorem head?_nest (ss : List Statement) :
    (nest (withTrees f ss)).head?.map (·.1) = ss.head?.map (·.depth) := by
  cases ss with
  | nil => rfl
  | cons s ss =>
    rw [withTrees, List.map_cons, nest]
    split <;> rfl

theorem forall_head?_nest {depth : Nat} {ss : List Statement} :
    (∀ p ∈ (nest (withTrees f ss)).head?, p.1 ≤ depth) ↔ ss.head?.all (·.depth ≤ depth) = true := by
  have h := head?_nest f ss
  revert h
  cases (nest (withTrees f ss)).head? <;> cases ss.head? <;> simp
  intro h
  rw [h]

theorem nest_cons_simple {s : Statement} (h : s.opensBlock = false) (ss : List Statement) :
    nest (withTrees f (s :: ss)) = (s.depth, f s) :: nest (withTrees f ss) := by
  rw [withTrees, List.map_cons, nest, h]
  rfl

theorem nest_cons_header {s : Statement} (h : s.opensBlock = true) (ss : List Statement) :
    nest (withTrees f (s :: ss)) =
      (s.depth, (f s).withStatements ((inner s.depth (nest (withTrees f ss))).map (·.2))) ::
        outer s.depth (nest (withTrees f ss)) := by
  rw [withTrees, List.map_cons, nest, h]
  rfl

/-- In a settled block every header takes the statements between its braces, and no more. -/
theorem nest_of_settled : ∀ {b : Block} {depth : Nat} {after : List Statement}, b.Placed depth →
    b.settled after = true →
    nest (withTrees f (b.statements ++ after)) = b.outline f ++ nest (withTrees f after)
  | .empty, _, _, _, _ => rfl
  | .simple s rest, _, after, h, hs => by
    rw [Block.statements, List.cons_append, nest_cons_simple f h.1.2, nest_of_settled h.2 hs]
    rfl
  | .headed header body rest, depth, after, h, hs => by
    obtain ⟨⟨hdepth, hopens⟩, hbody, hrest⟩ := h
    rw [Block.settled, Bool.and_eq_true, Bool.and_eq_true] at hs
    obtain ⟨⟨hsbody, hhead⟩, hsrest⟩ := hs
    have hdeeper : outer header.depth (body.outline f) = [] := by
      refine List.dropWhile_eq_nil_iff.2 fun p hp => ?_
      have := Block.le_of_mem_outline f hbody p hp
      rw [decide_eq_true_eq]
      omega
    obtain ⟨hinner, houter⟩ := outer_eq_self ((forall_head?_nest f).2 hhead)
    obtain ⟨htake, hdrop⟩ := inner_append hdeeper (nest (withTrees f (rest.statements ++ after)))
    rw [Block.statements, List.cons_append, List.append_assoc, nest_cons_header f hopens, nest_of_settled hbody hsbody,
      htake, hdrop, hinner, houter, nest_of_settled hrest hsrest, List.append_nil, Block.map_outline]
    rfl
  | .bare body rest, _, after, h, hs => by
    rw [Block.settled, Bool.and_eq_true] at hs
    rw [Block.statements, List.append_assoc, nest_of_settled h.1 hs.1, nest_of_settled h.2 hs.2, Block.outline,
      List.append_assoc]

/-! ## Sizes -/

end

mutual

/-- The number of nodes that a tree has as statements, with the tree itself. -/
def Node.size : Node → Nat
  | .mk _ _ _ statements => Node.sizes statements + 1

def Node.sizes : List Node → Nat
  | [] => 0
  | n :: ns => n.size + Node.sizes ns

end

theorem Node.size_pos (n : Node) : 0 < n.size := by
  cases n
  exact Nat.succ_pos _

theorem Node.sizes_append : ∀ ns ms : List Node, sizes (ns ++ ms) = sizes ns + sizes ms
  | [], ms => (Nat.zero_add _).symm
  | n :: ns, ms => by rw [List.cons_append, sizes, sizes, sizes_append ns ms, Nat.add_assoc]

theorem Node.sizes_eq_zero : ∀ {ns : List Node}, sizes ns = 0 → ns = []
  | [], _ => rfl
  | n :: ns, h => by
    have := n.size_pos
    rw [sizes] at h
    omega

section

variable (f : Statement → Node)

/-- What a statement adds to the size of a tree: the trees in the block of a header count by
themselves. -/
def weight (s : Statement) : Nat := if s.opensBlock then 1 else (f s).size

def weights : List Statement → Nat
  | [] => 0
  | s :: ss => weight f s + weights ss

theorem weights_cons (s : Statement) (ss : List Statement) : weights f (s :: ss) = weight f s + weights f ss := rfl

theorem weights_append (ss us : List Statement) : weights f (ss ++ us) = weights f ss + weights f us := by
  induction ss with
  | nil => rw [List.nil_append, weights, Nat.zero_add]
  | cons s ss ih => rw [List.cons_append, weights_cons, weights_cons, ih, Nat.add_assoc]

/-- A block has the size of its statements. -/
theorem Block.sizes_treeWith : ∀ {b : Block} {depth : Nat}, b.Placed depth →
    Node.sizes (b.treeWith f) = weights f b.statements
  | .empty, _, _ => rfl
  | .simple s rest, _, h => by
    have hs : weight f s = (f s).size := by simp [weight, h.1.2]
    rw [treeWith, Node.sizes, sizes_treeWith h.2, statements, weights_cons, hs]
  | .headed header body rest, _, h => by
    have hheader : weight f header = 1 := by simp [weight, h.1.2]
    rw [treeWith, Node.sizes, Node.withStatements, Node.size, sizes_treeWith h.2.1, sizes_treeWith h.2.2, statements,
      weights_cons, weights_append, hheader]
    omega
  | .bare body rest, _, h => by
    rw [treeWith, Node.sizes_append, sizes_treeWith h.1, sizes_treeWith h.2, statements, weights_append]

/-- The size of trees with depths. -/
def forestSize (trees : List (Nat × Node)) : Nat := Node.sizes (trees.map (·.2))

theorem forestSize_cons (p : Nat × Node) (trees : List (Nat × Node)) :
    forestSize (p :: trees) = p.2.size + forestSize trees := rfl

theorem forestSize_append (trees others : List (Nat × Node)) :
    forestSize (trees ++ others) = forestSize trees + forestSize others := by
  rw [forestSize, List.map_append, Node.sizes_append, forestSize, forestSize]

theorem eq_nil_of_forestSize {trees : List (Nat × Node)} (h : forestSize trees = 0) : trees = [] :=
  List.map_eq_nil_iff.1 (Node.sizes_eq_zero h)

/-- How statements are nested with others after them: the trees of the first statements are `trees`, of
which the last has taken the first trees of the others, `taken`, and `left` remain. -/
structure Nests (ss us : List Statement) (trees taken left : List (Nat × Node)) : Prop where
  nest_append : nest (withTrees f (ss ++ us)) = trees ++ left
  nest_after : nest (withTrees f us) = taken ++ left
  size : forestSize trees = weights f ss + forestSize taken
  size_dropLast : trees ≠ [] → forestSize trees.dropLast < weights f ss

theorem Nests.cons_simple {s : Statement} {ss us : List Statement} {trees taken left : List (Nat × Node)}
    (h : Nests f ss us trees taken left) (hs : s.opensBlock = false) :
    Nests f (s :: ss) us ((s.depth, f s) :: trees) taken left where
  nest_append := by rw [List.cons_append, nest_cons_simple f hs, h.nest_append, List.cons_append]
  nest_after := h.nest_after
  size := by
    have hweight : weight f s = (f s).size := by simp [weight, hs]
    rw [forestSize_cons, h.size, weights_cons, hweight, Nat.add_assoc]
  size_dropLast := by
    intro _
    have hweight : weight f s = (f s).size := by simp [weight, hs]
    have := (f s).size_pos
    cases trees with
    | nil =>
      show 0 < _
      rw [weights_cons]
      omega
    | cons p ps =>
      rw [List.dropLast_cons_cons, forestSize_cons, weights_cons, hweight]
      exact Nat.add_lt_add_left (h.size_dropLast (List.cons_ne_nil p ps)) _

/-- A header takes trees from the front: some of its own, or all of them and some of those after them. -/
theorem Nests.cons_header {s : Statement} {ss us : List Statement} {trees taken left : List (Nat × Node)}
    (h : Nests f ss us trees taken left) (hs : s.opensBlock = true) :
    ∃ trees' taken' left', Nests f (s :: ss) us trees' taken' left' := by
  have hweight : weight f s = 1 := by simp [weight, hs]
  have hnest := nest_cons_header f hs (ss ++ us)
  rw [h.nest_append] at hnest
  by_cases hall : outer s.depth trees = []
  · -- all of its own, and of those after them what lies deeper
    obtain ⟨hinner, houter⟩ := inner_append hall left
    rw [hinner, houter] at hnest
    refine ⟨[_], taken ++ inner s.depth left, outer s.depth left, hnest, ?_, ?_, fun _ => ?_⟩
    · rw [List.append_assoc, inner_append_outer, h.nest_after]
    · have hsize := h.size
      show Node.sizes _ + 1 + 0 = _
      rw [weights_cons, hweight, forestSize_append, List.map_append, Node.sizes_append]
      change forestSize trees + forestSize (inner s.depth left) + 1 + 0 = _
      omega
    · show 0 < _
      rw [weights_cons, hweight]
      omega
  · obtain ⟨hinner, houter⟩ := outer_append hall left
    rw [hinner, houter] at hnest
    have hsplit := inner_append_outer s.depth trees
    refine ⟨_ :: outer s.depth trees, taken, left, hnest, h.nest_after, ?_, fun _ => ?_⟩
    · have hsize := h.size
      rw [← hsplit, forestSize_append] at hsize
      rw [forestSize_cons, weights_cons, hweight]
      change forestSize (inner s.depth trees) + 1 + _ = _
      omega
    · have hne : trees ≠ [] := fun hnil => hall (by rw [hnil]; rfl)
      have hlt := h.size_dropLast hne
      rw [← hsplit, List.dropLast_append_of_ne_nil hall, forestSize_append] at hlt
      rw [List.dropLast_cons_of_ne_nil hall, forestSize_cons, weights_cons, hweight]
      change forestSize (inner s.depth trees) + 1 + _ < _
      omega

theorem exists_nests (us : List Statement) : ∀ ss : List Statement, ∃ trees taken left, Nests f ss us trees taken left
  | [] => ⟨[], [], _, rfl, rfl, rfl, fun h => absurd rfl h⟩
  | s :: ss => by
    obtain ⟨trees, taken, left, h⟩ := exists_nests us ss
    cases hs : s.opensBlock with
    | false => exact ⟨_, _, _, h.cons_simple f hs⟩
    | true => exact h.cons_header f hs

/-- Trees of the size of the first statements are followed by the trees of the other statements. -/
theorem nest_of_forestSize {ss us : List Statement} {trees others : List (Nat × Node)}
    (h : nest (withTrees f (ss ++ us)) = trees ++ others) (hsize : forestSize trees = weights f ss) :
    others = nest (withTrees f us) := by
  obtain ⟨trees', taken, left, hnests⟩ := exists_nests f us ss
  have hsize' := hnests.size
  rw [hnests.nest_append] at h
  rcases List.append_eq_append_iff.1 h with ⟨more, htrees, hleft⟩ | ⟨more, htrees, hothers⟩
  · rw [htrees, forestSize_append] at hsize
    have hmore := eq_nil_of_forestSize (show forestSize more = 0 by omega)
    have htaken := eq_nil_of_forestSize (show forestSize taken = 0 by omega)
    rw [hnests.nest_after, hleft, hmore, htaken, List.nil_append, List.nil_append]
  · by_cases hmore : more = []
    · rw [hmore, List.append_nil] at htrees
      rw [htrees] at hsize'
      have htaken := eq_nil_of_forestSize (show forestSize taken = 0 by omega)
      rw [hnests.nest_after, hothers, hmore, htaken]
    · have hlt := hnests.size_dropLast (by rw [htrees]; exact List.append_ne_nil_of_right_ne_nil _ hmore)
      rw [htrees, List.dropLast_append_of_ne_nil hmore, forestSize_append] at hlt
      omega

/-- Where every header takes the statements between its braces and no more, the block is settled. -/
theorem settled_of_nest : ∀ {b : Block} {depth : Nat} {after : List Statement} {trees : List (Nat × Node)},
    b.Placed depth → nest (withTrees f (b.statements ++ after)) = trees ++ nest (withTrees f after) →
    trees.map (·.2) = b.treeWith f → b.settled after = true
  | .empty, _, _, _, _, _, _ => rfl
  | .simple s rest, _, after, trees, h, hnest, htrees => by
    obtain ⟨p, trees, rfl, -, htrees⟩ := List.map_eq_cons_iff.1 htrees
    rw [Block.statements, List.cons_append, nest_cons_simple f h.1.2] at hnest
    rw [Block.settled]
    exact settled_of_nest h.2 (List.cons.inj hnest).2 htrees
  | .headed header body rest, _, after, trees, h, hnest, htrees => by
    obtain ⟨p, trees, rfl, hp, hothers⟩ := List.map_eq_cons_iff.1 htrees
    rw [Block.statements, List.cons_append, List.append_assoc, nest_cons_header f h.1.2] at hnest
    obtain ⟨rfl, houter⟩ := List.cons.inj hnest
    have hbody := inner_append_outer header.depth (nest (withTrees f (body.statements ++ (rest.statements ++ after))))
    have htake : (inner header.depth _).map (·.2) = body.treeWith f := (Node.mk.inj hp).2.2.2
    have hsize := (congrArg Node.sizes htake).trans (Block.sizes_treeWith f h.2.1)
    have hrest := nest_of_forestSize f hbody.symm hsize
    have hhead := le_of_mem_head?_outer header.depth
      (nest (withTrees f (body.statements ++ (rest.statements ++ after))))
    rw [hrest] at hbody houter hhead
    rw [Block.settled, settled_of_nest h.2.1 hbody.symm htake, settled_of_nest h.2.2 houter hothers,
      (forall_head?_nest f).1 hhead]
    rfl
  | .bare body rest, _, after, trees, h, hnest, htrees => by
    obtain ⟨first, second, rfl, hfirst, hsecond⟩ := List.map_eq_append_iff.1 htrees
    rw [Block.statements, List.append_assoc, List.append_assoc] at hnest
    have hsize : forestSize first = weights f body.statements := by
      rw [forestSize, hfirst, Block.sizes_treeWith f h.1]
    have hrest := nest_of_forestSize f hnest hsize
    rw [hrest] at hnest
    rw [Block.settled, settled_of_nest h.1 hnest hfirst, settled_of_nest h.2 hrest.symm hsecond]
    rfl

end

/-! ## Programs -/

/-- In a text that is read to its end, with a semicolon after every statement that has no braces of its own,
every statement belongs to the header of the innermost braces around it that have one, and stands there in
the order of the text, if and only if the first statement after the braces of each header lies no deeper than
the header. -/
theorem tree_eq_nest_iff_settled {o : Options} {source : String} {statements : List Statement}
    {nodes : List (Statement × Node)} (hscan : Statement.scan o source = .ok statements)
    (hended : ∀ s, .unended s ∉ trace o source) (hbuild : buildAll statements = .ok nodes) :
    (∃ b : Block, b.marks = trace o source) ∧ ∀ b : Block, b.marks = trace o source →
      b.statements = statements ∧ (b.tree = .ok ((nest nodes).map (·.2)) ↔ b.settled [] = true) := by
  refine ⟨Block.exists_marks_eq_trace hscan hended, fun b hb => ?_⟩
  obtain ⟨hplaced, rfl⟩ := Block.placed_of_marks_eq_trace hscan hb
  obtain ⟨f, hf, rfl⟩ := exists_withTrees hbuild
  refine ⟨rfl, ?_⟩
  rw [Block.tree_eq hf, Except.ok.injEq]
  constructor
  · intro htree
    exact settled_of_nest f hplaced (by rw [List.append_nil]; exact (List.append_nil _).symm) htree.symm
  · intro hsettled
    have hnest := nest_of_settled f hplaced hsettled
    rw [List.append_nil] at hnest
    rw [hnest, List.map_append, Block.map_outline]
    exact (List.append_nil _).symm

theorem ofTokens_while :
    Node.ofTokens 1 ["while", "(", "x", ")"] = .ok (.apply (.call "while") 1 [.leaf (.read "x") 1]) := by
  have hform : Form.ofTokens ["while", "(", "x", ")"] = .invoke (.call "while" [["x"]]) := rfl
  have hx : Node.ofTokens 1 ["x"] = .ok (.leaf (.read "x") 1) := by
    rw [Node.ofTokens]
    rfl
  rw [Node.ofTokens, hform]
  exact build_call (.cons hx .nil)

/-- Bare braces before a loop and in it. -/
theorem tree_eq_nest_in_loop :
    let source := "a; \x7b b; \x7d while (x) \x7b c; \x7b d; \x7d \x7d e;"
    let block : Block := .simple ⟨1, 0, ["a"], false⟩ (.bare (.simple ⟨1, 1, ["b"], false⟩ .empty)
      (.headed ⟨1, 0, ["while", "(", "x", ")"], true⟩
        (.simple ⟨1, 1, ["c"], false⟩ (.bare (.simple ⟨1, 2, ["d"], false⟩ .empty) .empty))
        (.simple ⟨1, 0, ["e"], false⟩ .empty)))
    Statement.scan {} source = .ok block.statements ∧ block.marks = trace {} source ∧
      ∃ nodes, buildAll block.statements = .ok nodes ∧ block.tree = .ok ((nest nodes).map (·.2)) := by
  intro source block
  let f : Statement → Node := fun s =>
    if s.opensBlock then .apply (.call "while") 1 [.leaf (.read "x") 1] else .leaf (.read (s.tokens.headD "")) 1
  have hscan : Statement.scan {} source = .ok block.statements := by decide +kernel
  have hmarks : block.marks = trace {} source := by decide +kernel
  have htrees : ∀ s ∈ block.statements, s.tree = .ok (f s) := by
    simp only [block, Block.statements, List.cons_append, List.nil_append, List.forall_mem_cons, List.not_mem_nil]
    refine ⟨?_, ?_, ofTokens_while, ?_, ?_, ?_, fun _ h => h.elim⟩
    all_goals rw [Statement.tree, Node.ofTokens]; rfl
  have hbuild := buildAll_of_tree htrees
  have hended : ∀ s, .unended s ∉ trace {} source := hmarks ▸ block.unended_not_mem_marks
  exact ⟨hscan, hmarks, _, hbuild, ((tree_eq_nest_iff_settled hscan hended hbuild).2 block hmarks).2.2 (by decide)⟩

/-- The statement of bare braces after a loop belongs to the loop. -/
theorem nest_bare_after_loop :
    let source := "while (x) \x7b a; \x7d \x7b b; \x7d"
    let block : Block := .headed ⟨1, 0, ["while", "(", "x", ")"], true⟩ (.simple ⟨1, 1, ["a"], false⟩ .empty)
      (.bare (.simple ⟨1, 1, ["b"], false⟩ .empty) .empty)
    let loop : Node := .apply (.call "while") 1 [.leaf (.read "x") 1]
    Statement.scan {} source = .ok block.statements ∧ block.marks = trace {} source ∧
      block.tree = .ok [loop.withStatements [.leaf (.read "a") 1], .leaf (.read "b") 1] ∧
      ∃ nodes, buildAll block.statements = .ok nodes ∧
        (nest nodes).map (·.2) = [loop.withStatements [.leaf (.read "a") 1, .leaf (.read "b") 1]] := by
  intro source block loop
  let f : Statement → Node := fun s => if s.opensBlock then loop else .leaf (.read (s.tokens.headD "")) 1
  have htrees : ∀ s ∈ block.statements, s.tree = .ok (f s) := by
    simp only [block, Block.statements, List.cons_append, List.nil_append, List.forall_mem_cons, List.not_mem_nil]
    refine ⟨ofTokens_while, ?_, ?_, fun _ h => h.elim⟩
    all_goals rw [Statement.tree, Node.ofTokens]; rfl
  exact ⟨by decide +kernel, by decide +kernel, Block.tree_eq htrees, _, buildAll_of_tree htrees, rfl⟩

end WordMachine.Cflat

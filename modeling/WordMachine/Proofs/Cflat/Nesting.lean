/-
Nesting by depth. The parent of a statement is the latest header before it such that every statement
after the header, up to this one, lies deeper than the header; a statement without a parent belongs to the
root. The tree of a program has one node for each statement, whose statements are the trees of its children
in the order of the program, whatever the depths are.

The same tree is built in one walk with a stack of open blocks, where a block is added to its parent when it
is closed; the root is at the bottom of this stack throughout.
-/
import WordMachine.Proofs.Cflat.Ownership
import WordMachine.Proofs.Cflat.SingleStatement

namespace WordMachine.Cflat

/-! ## Parents -/

def opensAt (ss : List Statement) (i : Nat) : Bool := ss[i]?.any (·.opensBlock)

def depthAt (ss : List Statement) (i : Nat) : Nat := ss[i]?.elim 0 (·.depth)

/-- Is statement `i` a header that every statement after it, up to statement `j`, lies deeper than? -/
def encloses (ss : List Statement) (i j : Nat) : Bool :=
  opensAt ss i && decide (∀ k < j + 1, i < k → depthAt ss i < depthAt ss k)

/-- The latest header before statement `j` that encloses it. -/
def parent? (ss : List Statement) (j : Nat) : Option Nat := (List.range j).reverse.find? (encloses ss · j)

/-- The statements with the given parent, in the order of the program. -/
def children (ss : List Statement) (parent : Option Nat) : List Nat :=
  (List.range ss.length).filter (parent? ss · = parent)

theorem lt_of_parent? {ss : List Statement} {i j : Nat} (h : parent? ss j = some i) : i < j :=
  List.mem_range.1 (List.mem_reverse.1 (List.mem_of_find?_eq_some h))

theorem mem_children {ss : List Statement} {parent : Option Nat} {j : Nat} :
    j ∈ children ss parent ↔ j < ss.length ∧ parent? ss j = parent := by
  simp [children]

/-- The tree of statement `i`, where `f` gives the node of each statement. -/
def treeAt (ss : List Statement) (f : Nat → Node) (i : Nat) : Node :=
  (f i).withStatements ((children ss (some i)).attach.map fun j => treeAt ss f j.1)
termination_by ss.length - i
decreasing_by
  obtain ⟨hlt, hparent⟩ := mem_children.1 j.2
  have := lt_of_parent? hparent
  omega

theorem treeAt_eq (ss : List Statement) (f : Nat → Node) (i : Nat) :
    treeAt ss f i = (f i).withStatements ((children ss (some i)).map (treeAt ss f)) := by
  rw [treeAt, List.attach_map_val]

/-! ## One statement in front -/

section

variable (s : Statement) (ss : List Statement)

theorem encloses_cons_succ (i j : Nat) : encloses (s :: ss) (i + 1) (j + 1) = encloses ss i j := by
  have h : (∀ k < j + 1 + 1, i + 1 < k → depthAt (s :: ss) (i + 1) < depthAt (s :: ss) k) ↔
      ∀ k < j + 1, i < k → depthAt ss i < depthAt ss k := by
    constructor
    · intro h k hk hik
      exact h (k + 1) (by omega) (by omega)
    · intro h k hk hik
      obtain ⟨k, rfl⟩ : ∃ k', k = k' + 1 := ⟨k - 1, by omega⟩
      exact h k (by omega) (by omega)
  rw [encloses, encloses, decide_eq_decide.2 h]
  rfl

/-- The first statement encloses another one if it is a header and all statements between lie deeper. -/
theorem encloses_cons_zero (j : Nat) : encloses (s :: ss) 0 (j + 1) = true ↔
    s.opensBlock = true ∧ ∀ k ≤ j, s.depth < depthAt ss k := by
  rw [encloses, Bool.and_eq_true, decide_eq_true_eq]
  refine and_congr Iff.rfl ⟨fun h k hk => h (k + 1) (by omega) (by omega), fun h k hk h0 => ?_⟩
  obtain ⟨k, rfl⟩ : ∃ k', k = k' + 1 := ⟨k - 1, by omega⟩
  exact h k (by omega)

theorem parent?_cons_succ (j : Nat) : parent? (s :: ss) (j + 1) =
    ((parent? ss j).map (· + 1)).or (if encloses (s :: ss) 0 (j + 1) then some 0 else none) := by
  have hshift : (encloses (s :: ss) · (j + 1)) ∘ Nat.succ = (encloses ss · j) :=
    funext fun i => encloses_cons_succ s ss i j
  rw [parent?, List.range_succ_eq_map, List.reverse_cons, List.find?_append, ← List.map_reverse, List.find?_map,
    hshift, parent?, List.find?_singleton]

theorem parent?_cons_succ_eq_none (j : Nat) : parent? (s :: ss) (j + 1) = none ↔
    parent? ss j = none ∧ encloses (s :: ss) 0 (j + 1) = false := by
  rw [parent?_cons_succ]
  cases parent? ss j <;> cases encloses (s :: ss) 0 (j + 1) <;> simp

theorem parent?_cons_succ_eq_zero (j : Nat) : parent? (s :: ss) (j + 1) = some 0 ↔
    parent? ss j = none ∧ encloses (s :: ss) 0 (j + 1) = true := by
  rw [parent?_cons_succ]
  cases parent? ss j <;> cases encloses (s :: ss) 0 (j + 1) <;> simp

theorem parent?_cons_succ_eq_succ (i j : Nat) : parent? (s :: ss) (j + 1) = some (i + 1) ↔ parent? ss j = some i := by
  rw [parent?_cons_succ]
  cases parent? ss j <;> cases encloses (s :: ss) 0 (j + 1) <;> simp

/-- The children after the first statement. -/
theorem children_cons (parent : Option Nat) : children (s :: ss) parent =
    (if parent = none then [0] else []) ++
      ((List.range ss.length).filter fun j => parent? (s :: ss) (j + 1) = parent).map (· + 1) := by
  have hzero : parent? (s :: ss) 0 = none := rfl
  rw [children, List.length_cons, List.range_succ_eq_map, List.filter_cons, hzero, List.filter_map]
  cases parent <;> rfl

theorem children_cons_succ (i : Nat) :
    children (s :: ss) (some (i + 1)) = (children ss (some i)).map (· + 1) := by
  simp only [children_cons, parent?_cons_succ_eq_succ]
  rfl

theorem children_cons_zero :
    children (s :: ss) (some 0) = ((children ss none).filter fun j => encloses (s :: ss) 0 (j + 1)).map (· + 1) := by
  rw [children_cons, if_neg (by simp), List.nil_append, children, List.filter_filter]
  congr 1
  refine List.filter_congr fun j _ => ?_
  rw [decide_eq_decide.2 (parent?_cons_succ_eq_zero s ss j), Bool.decide_and, Bool.and_comm, Bool.decide_eq_true]

theorem children_cons_none : children (s :: ss) none =
    0 :: ((children ss none).filter fun j => !encloses (s :: ss) 0 (j + 1)).map (· + 1) := by
  rw [children_cons, if_pos rfl, List.singleton_append, children, List.filter_filter]
  congr 2
  refine List.filter_congr fun j _ => ?_
  rw [decide_eq_decide.2 (parent?_cons_succ_eq_none s ss j), Bool.decide_and, Bool.and_comm, Bool.decide_eq_false]

theorem treeAt_cons_succ (f : Nat → Node) (i : Nat) :
    treeAt (s :: ss) f (i + 1) = treeAt ss (fun j => f (j + 1)) i := by
  induction h : ss.length - i using Nat.strong_induction_on generalizing i with
  | _ n ih =>
    rw [treeAt_eq, treeAt_eq, children_cons_succ, List.map_map]
    congr 1
    refine List.map_congr_left fun j hj => ?_
    obtain ⟨hlt, hparent⟩ := mem_children.1 hj
    have := lt_of_parent? hparent
    exact ih (ss.length - j) (by omega) j rfl

end

/-! ## Depths of the outermost statements -/

/-- Every statement lies in the tree of an outermost one that is no deeper. -/
theorem exists_outermost (ss : List Statement) {k : Nat} (h : k < ss.length) :
    ∃ r ∈ children ss none, r ≤ k ∧ depthAt ss r ≤ depthAt ss k := by
  induction k using Nat.strong_induction_on with
  | _ k ih =>
    cases hparent : parent? ss k with
    | none => exact ⟨k, mem_children.2 ⟨h, hparent⟩, Nat.le_refl k, Nat.le_refl _⟩
    | some i =>
      have hlt := lt_of_parent? hparent
      obtain ⟨r, hr, hri, hdepth⟩ := ih i hlt (by omega)
      have hencloses := List.find?_some hparent
      rw [encloses, Bool.and_eq_true, decide_eq_true_eq] at hencloses
      have := hencloses.2 k (by omega) hlt
      exact ⟨r, hr, by omega, by omega⟩

/-- In an increasing list, the elements such that all up to them have a property are those before the first
that has not. -/
theorem filter_eq_takeWhile {p q : Nat → Bool} : ∀ {l : List Nat}, l.Pairwise (· < ·) →
    (∀ x ∈ l, q x = true ↔ ∀ y ∈ l, y ≤ x → p y = true) →
    l.filter q = l.takeWhile p ∧ l.filter (fun x => !q x) = l.dropWhile p
  | [], _, _ => ⟨rfl, rfl⟩
  | x :: l, hsorted, h => by
    obtain ⟨hlt, hsorted⟩ := List.pairwise_cons.1 hsorted
    by_cases hx : p x = true
    · have hq : q x = true := (h x (List.mem_cons_self ..)).2 fun y hy hyx => by
        rcases List.mem_cons.1 hy with rfl | hy
        · exact hx
        · exact absurd (hlt y hy) (Nat.not_lt.2 hyx)
      have ih := filter_eq_takeWhile hsorted fun z hz => by
        rw [h z (List.mem_cons_of_mem _ hz)]
        exact ⟨fun h y hy => h y (List.mem_cons_of_mem _ hy), fun h => List.forall_mem_cons.2 ⟨fun _ => hx, h⟩⟩
      simp only [List.filter_cons, List.takeWhile_cons, List.dropWhile_cons, hx, hq, ih]
      simp
    · have hq : ∀ z ∈ x :: l, q z = false := fun z hz => by
        rw [Bool.eq_false_iff]
        refine fun hz' => hx ((h z hz).1 hz' x (List.mem_cons_self ..) ?_)
        rcases List.mem_cons.1 hz with rfl | hz
        · exact Nat.le_refl _
        · exact Nat.le_of_lt (hlt z hz)
      rw [List.takeWhile_cons_of_neg hx, List.dropWhile_cons_of_neg hx, List.filter_eq_nil_iff, List.filter_eq_self]
      exact ⟨fun z hz => by simp [hq z hz], fun z hz => by simp [hq z hz]⟩

/-- A header takes the outermost statements before the first that lies no deeper. -/
theorem children_of_header {s : Statement} (ss : List Statement) (h : s.opensBlock = true) :
    children (s :: ss) (some 0) = ((children ss none).takeWhile fun j => s.depth < depthAt ss j).map (· + 1) ∧
      children (s :: ss) none = 0 :: ((children ss none).dropWhile fun j => s.depth < depthAt ss j).map (· + 1) := by
  have hsorted : (children ss none).Pairwise (· < ·) := List.pairwise_lt_range.filter _
  obtain ⟨htake, hdrop⟩ := filter_eq_takeWhile (p := fun j => s.depth < depthAt ss j)
    (q := fun j => encloses (s :: ss) 0 (j + 1)) hsorted fun x hx => by
      rw [encloses_cons_zero]
      simp only [h, true_and, decide_eq_true_eq]
      constructor
      · exact fun h y _ hyx => h y hyx
      · intro h k hk
        have hx := (mem_children.1 hx).1
        obtain ⟨r, hr, hrk, hdepth⟩ := exists_outermost ss (show k < ss.length by omega)
        exact Nat.lt_of_lt_of_le (h r hr (by omega)) hdepth
  rw [children_cons_zero, children_cons_none, htake, hdrop]
  exact ⟨rfl, rfl⟩

/-- A statement that is no header has no children. -/
theorem children_of_simple {s : Statement} (ss : List Statement) (h : s.opensBlock = false) :
    children (s :: ss) (some 0) = [] ∧ children (s :: ss) none = 0 :: (children ss none).map (· + 1) := by
  have hnot (j : Nat) : encloses (s :: ss) 0 (j + 1) = false := by
    rw [Bool.eq_false_iff, Ne, encloses_cons_zero, h]
    exact fun hf => Bool.false_ne_true hf.1
  rw [children_cons_zero, children_cons_none]
  simp [hnot]

/-! ## The tree of a program -/

theorem withStatements_nil {n : Node} (h : n.statements = []) : n.withStatements [] = n := by
  cases n
  exact congrArg _ h.symm

/-- The outermost trees are those of the statements without a parent. -/
theorem nest_eq_treeAt : ∀ {nodes : List (Statement × Node)} {f : Nat → Node},
    (∀ (i : Nat) (p : Statement × Node), nodes[i]? = some p → p.2 = f i ∧ p.2.statements = []) →
    nest nodes = (children (nodes.map (·.1)) none).map fun i =>
      (depthAt (nodes.map (·.1)) i, treeAt (nodes.map (·.1)) f i)
  | [], _, _ => rfl
  | (s, n) :: nodes, f, hf => by
    obtain ⟨rfl, hbare⟩ := hf 0 (s, n) rfl
    have ih := nest_eq_treeAt (f := fun i => f (i + 1)) fun i p hp => hf (i + 1) p hp
    rw [List.map_cons, nest, ih]
    generalize nodes.map (·.1) = ss
    have hshift : (fun i => (depthAt (s :: ss) i, treeAt (s :: ss) f i)) ∘ (· + 1) =
        fun i => (depthAt ss i, treeAt ss (fun j => f (j + 1)) i) :=
      funext fun i => congrArg (Prod.mk _) (treeAt_cons_succ s ss f i)
    cases hs : s.opensBlock with
    | false =>
      obtain ⟨hinner, houter⟩ := children_of_simple ss hs
      rw [houter, List.map_cons, List.map_map, hshift, treeAt_eq, hinner, List.map_nil, withStatements_nil hbare]
      rfl
    | true =>
      obtain ⟨hinner, houter⟩ := children_of_header ss hs
      rw [houter, List.map_cons, List.map_map, hshift, treeAt_eq, hinner, List.map_map]
      have htree : treeAt (s :: ss) f ∘ (· + 1) = treeAt ss fun j => f (j + 1) :=
        funext fun i => treeAt_cons_succ s ss f i
      rw [htree, List.takeWhile_map, List.dropWhile_map, List.map_map]
      rfl

/-! ## One node a statement -/

mutual

/-- The nodes of a tree without their statements, each before those of its statements. -/
def Node.preorder : Node → List Node
  | .mk head line arguments statements => .mk head line arguments [] :: Node.preorders statements

def Node.preorders : List Node → List Node
  | [] => []
  | n :: ns => n.preorder ++ Node.preorders ns

end

theorem Node.preorder_withStatements {n : Node} (h : n.statements = []) (ns : List Node) :
    (n.withStatements ns).preorder = n :: Node.preorders ns := by
  cases n
  cases h
  rfl

theorem Node.preorders_append : ∀ ns ms : List Node, preorders (ns ++ ms) = preorders ns ++ preorders ms
  | [], _ => rfl
  | n :: ns, ms => by rw [List.cons_append, preorders, preorders, preorders_append ns ms, List.append_assoc]

/-- The nodes of the trees are those of the statements, in the order of the program. -/
theorem preorders_nest : ∀ {nodes : List (Statement × Node)}, (∀ p ∈ nodes, p.2.statements = []) →
    Node.preorders ((nest nodes).map (·.2)) = nodes.map (·.2)
  | [], _ => rfl
  | (s, n) :: nodes, h => by
    rw [List.forall_mem_cons] at h
    have ih := preorders_nest h.2
    rw [nest, List.map_cons, ← ih]
    dsimp only
    split
    · -- the trees that a header takes come right after it, those that it leaves come after these
      rw [List.map_cons, Node.preorders, Node.preorder_withStatements h.1, List.cons_append, ← Node.preorders_append,
        ← List.map_append, List.takeWhile_append_dropWhile]
    · have hn := Node.preorder_withStatements h.1 []
      rw [withStatements_nil h.1] at hn
      rw [List.map_cons, Node.preorders, hn]
      rfl

/-! ## A stack of open blocks -/

/-- A node whose block is open. -/
structure OpenBlock where
  node : Node
  /-- The least depth of the statements in the block. -/
  depth : Nat
  deriving Repr

/-- Why no tree is built. -/
inductive BuildFault where
  | refused (e : Error)
  /-- No block is open, not even that of the root. -/
  | rootClosed
  deriving Repr, DecidableEq

namespace OpenBlock

/-- Adds a node to the statements of the block. -/
def add (b : OpenBlock) (child : Node) : OpenBlock :=
  { b with node := b.node.withStatements (b.node.statements ++ [child]) }

/-- Closes the blocks, the innermost first, that a statement at `depth` is outside of. A block that is closed
is added to the one around it; the outermost block stays open. -/
def closeTo (depth : Nat) : List OpenBlock → List OpenBlock
  | b :: c :: blocks => if depth < b.depth then closeTo depth (c.add b.node :: blocks) else b :: c :: blocks
  | blocks => blocks
termination_by blocks => blocks.length

def addTo (child : Node) : List OpenBlock → Except BuildFault (List OpenBlock)
  | [] => .error .rootClosed
  | b :: blocks => .ok (b.add child :: blocks)

/-- Reads a statement. -/
def step (blocks : List OpenBlock) (s : Statement) : Except BuildFault (List OpenBlock) :=
  match s.tree with
  | .error e => .error (.refused e)
  | .ok node =>
    if s.opensBlock then .ok (⟨node, s.depth + 1⟩ :: closeTo s.depth blocks)
    else addTo node (closeTo s.depth blocks)

/-- Reads statements. -/
def run (blocks : List OpenBlock) : List Statement → Except BuildFault (List OpenBlock)
  | [] => .ok blocks
  | s :: ss => step blocks s >>= fun blocks => run blocks ss

/-- Closes all blocks; what is left is the node of the outermost one. -/
def closeAll : List OpenBlock → Except BuildFault Node
  | [] => .error .rootClosed
  | [b] => .ok b.node
  | b :: c :: blocks => closeAll (c.add b.node :: blocks)
termination_by blocks => blocks.length

/-- The root of a program before its statements are read. -/
def root : OpenBlock := ⟨.leaf (.function rootName .nothing) 1, 0⟩

/-- The tree of a program before its branches are merged. -/
def build (ss : List Statement) : Except BuildFault Node := run [root] ss >>= closeAll

/-! ### What the blocks take -/

/-- The block with more statements. -/
def addAll (b : OpenBlock) (children : List Node) : OpenBlock :=
  { b with node := b.node.withStatements (b.node.statements ++ children) }

/-- The node of the outermost block after the innermost has taken the trees at the front that lie in it, and
the blocks around it what lies in them. -/
def absorb (b : OpenBlock) : List OpenBlock → List (Nat × Node) → Node
  | [], trees => (b.addAll (trees.map (·.2))).node
  | c :: blocks, trees =>
    absorb (c.add (b.addAll ((trees.takeWhile (b.depth ≤ ·.1)).map (·.2))).node) blocks
      (trees.dropWhile (b.depth ≤ ·.1))

theorem addAll_nil (b : OpenBlock) : b.addAll [] = b := by
  rcases b with ⟨⟨⟩, _⟩
  simp [addAll, Node.withStatements, Node.statements, Node.head, Node.line, Node.arguments]

theorem addAll_cons (b : OpenBlock) (child : Node) (children : List Node) :
    b.addAll (child :: children) = (b.add child).addAll children := by
  rcases b with ⟨⟨⟩, _⟩
  simp [addAll, add, Node.withStatements, Node.statements, Node.head, Node.line, Node.arguments]

theorem closeAll_eq : ∀ (blocks : List OpenBlock) (b : OpenBlock), closeAll (b :: blocks) = .ok (absorb b blocks [])
  | [], b => by rw [closeAll, absorb, List.map_nil, addAll_nil]
  | c :: blocks, b => by
    rw [closeAll, closeAll_eq blocks, absorb, List.takeWhile_nil, List.dropWhile_nil, List.map_nil, addAll_nil]

/-- Blocks that the first tree is outside of take nothing. -/
theorem closeTo_eq (tree : Nat × Node) (trees : List (Nat × Node)) : ∀ (blocks : List OpenBlock) (b : OpenBlock),
    ∃ b' blocks', closeTo tree.1 (b :: blocks) = b' :: blocks' ∧ (blocks' = [] ∨ b'.depth ≤ tree.1) ∧
      absorb b' blocks' (tree :: trees) = absorb b blocks (tree :: trees)
  | [], b => ⟨b, [], by rw [closeTo]; simp, .inl rfl, rfl⟩
  | c :: blocks, b => by
    rw [closeTo]
    split
    · rename_i hlt
      obtain ⟨b', blocks', hclose, hdepth, habsorb⟩ := closeTo_eq tree trees blocks (c.add b.node)
      refine ⟨b', blocks', hclose, hdepth, habsorb.trans ?_⟩
      have hout : ¬b.depth ≤ tree.1 := Nat.not_le.2 hlt
      simp [absorb, hout, addAll_nil]
    · rename_i hlt
      exact ⟨b, c :: blocks, rfl, .inr (Nat.not_lt.1 hlt), rfl⟩

/-- The innermost block takes a tree that lies in it. -/
theorem absorb_cons {b : OpenBlock} {blocks : List OpenBlock} {tree : Nat × Node} (trees : List (Nat × Node))
    (h : blocks = [] ∨ b.depth ≤ tree.1) : absorb b blocks (tree :: trees) = absorb (b.add tree.2) blocks trees := by
  cases blocks with
  | nil => rw [absorb, absorb, List.map_cons, addAll_cons]
  | cons c blocks =>
    have hin : b.depth ≤ tree.1 := h.resolve_left (List.cons_ne_nil _ _)
    have hdepth : (b.add tree.2).depth = b.depth := rfl
    rw [absorb, absorb, hdepth]
    simp [hin, addAll_cons]

/-- A block that is opened takes the trees that lie deeper than its header. -/
theorem absorb_opened (n : Node) (depth : Nat) (b : OpenBlock) (blocks : List OpenBlock) (trees : List (Nat × Node))
    (hn : n.statements = []) : absorb ⟨n, depth + 1⟩ (b :: blocks) trees =
      absorb (b.add (n.withStatements ((inner depth trees).map (·.2)))) blocks (outer depth trees) := by
  rw [absorb, addAll, hn]
  rfl

/-- Reading statements and closing all blocks gives the trees of the statements to the blocks. -/
theorem run_closeAll : ∀ {nodes : List (Statement × Node)} (b : OpenBlock) (blocks : List OpenBlock),
    (∀ p ∈ nodes, p.1.tree = .ok p.2 ∧ p.2.statements = []) →
    run (b :: blocks) (nodes.map (·.1)) >>= closeAll = .ok (absorb b blocks (nest nodes))
  | [], b, blocks, _ => closeAll_eq blocks b
  | (s, n) :: nodes, b, blocks, h => by
    rw [List.forall_mem_cons] at h
    obtain ⟨⟨htree, hbare⟩, hnodes⟩ := h
    rw [List.map_cons, run, step, htree]
    dsimp only
    cases hs : s.opensBlock with
    | false =>
      rw [nest, hs]
      obtain ⟨b', blocks', hclose, hdepth, habsorb⟩ := closeTo_eq (s.depth, n) (nest nodes) blocks b
      rw [hclose]
      refine (run_closeAll (b'.add n) blocks' hnodes).trans ?_
      rw [← absorb_cons _ hdepth, habsorb]
      rfl
    | true =>
      rw [nest, hs]
      let tree := n.withStatements ((inner s.depth (nest nodes)).map (·.2))
      obtain ⟨b', blocks', hclose, hdepth, habsorb⟩ :=
        closeTo_eq (s.depth, tree) (outer s.depth (nest nodes)) blocks b
      rw [hclose]
      refine (run_closeAll ⟨n, s.depth + 1⟩ (b' :: blocks') hnodes).trans ?_
      rw [absorb_opened _ _ _ _ _ hbare, ← absorb_cons _ hdepth, habsorb]
      rfl

/-- The stack builds the tree that the statements are nested to. -/
theorem build_of_buildAll {ss : List Statement} {nodes : List (Statement × Node)} (h : buildAll ss = .ok nodes) :
    build ss = .ok (root.node.withStatements ((nest nodes).map (·.2))) := by
  obtain ⟨rfl, htrees⟩ := buildAll_eq_ok_iff.1 h
  exact (run_closeAll root [] fun p hp => ⟨htrees p hp, statements_ofTokens (htrees p hp)⟩).trans rfl

/-! ### The root stays open -/

/-- The root is at the bottom, and the depths increase up the stack. -/
structure Sound (blocks : List OpenBlock) : Prop where
  root : ∃ above body, blocks = above ++ [⟨OpenBlock.root.node.withStatements body, 0⟩]
  increasing : blocks.Pairwise fun a b => b.depth < a.depth

theorem Sound.add {b : OpenBlock} {blocks : List OpenBlock} (h : Sound (b :: blocks)) (child : Node) :
    Sound (b.add child :: blocks) := by
  obtain ⟨⟨above, body, hblocks⟩, hincreasing⟩ := h
  refine ⟨?_, List.pairwise_cons.2 (List.pairwise_cons.1 hincreasing)⟩
  cases above with
  | nil =>
    cases hblocks
    exact ⟨[], body ++ [child], rfl⟩
  | cons a above =>
    cases hblocks
    exact ⟨b.add child :: above, body, rfl⟩

theorem Sound.tail {b c : OpenBlock} {blocks : List OpenBlock} (h : Sound (b :: c :: blocks)) :
    Sound (c :: blocks) := by
  obtain ⟨⟨above, body, hblocks⟩, hincreasing⟩ := h
  refine ⟨?_, hincreasing.of_cons⟩
  cases above with
  | nil => cases hblocks
  | cons a above => exact ⟨above, body, (List.cons.inj hblocks).2⟩

/-- After blocks have been closed for a statement, the innermost that is open is no deeper. -/
theorem Sound.closeTo (depth : Nat) : ∀ {blocks : List OpenBlock}, Sound blocks →
    Sound (closeTo depth blocks) ∧ ∃ b blocks', closeTo depth blocks = b :: blocks' ∧ b.depth ≤ depth
  | [], h => by
    obtain ⟨above, body, hblocks⟩ := h.root
    simp at hblocks
  | [b], h => by
    obtain ⟨above, body, hblocks⟩ := h.root
    have hclose : OpenBlock.closeTo depth [b] = [b] := by rw [OpenBlock.closeTo]; simp
    rw [hclose]
    refine ⟨h, b, [], rfl, ?_⟩
    cases above with
    | nil => cases hblocks; exact Nat.zero_le _
    | cons a above => simp at hblocks
  | b :: c :: blocks, h => by
    rw [OpenBlock.closeTo]
    split
    · exact (h.tail.add b.node).closeTo depth
    · rename_i hlt
      exact ⟨h, b, _, rfl, Nat.not_lt.1 hlt⟩
termination_by blocks => blocks.length

theorem Sound.step {blocks : List OpenBlock} (h : Sound blocks) {s : Statement} {n : Node} (hs : s.tree = .ok n) :
    ∃ blocks', step blocks s = .ok blocks' ∧ Sound blocks' := by
  obtain ⟨hsound, b, blocks', hclose, hdepth⟩ := h.closeTo s.depth
  rw [OpenBlock.step, hs, hclose]
  rw [hclose] at hsound
  dsimp only
  split
  · obtain ⟨above, body, hblocks⟩ := hsound.root
    refine ⟨_, rfl, ⟨_ :: above, body, congrArg _ hblocks⟩, List.pairwise_cons.2 ⟨fun c hc => ?_, hsound.increasing⟩⟩
    rcases List.mem_cons.1 hc with rfl | hc
    · exact Nat.lt_succ_of_le hdepth
    · have := (List.pairwise_cons.1 hsound.increasing).1 c hc
      show c.depth < s.depth + 1
      omega
  · exact ⟨_, rfl, hsound.add n⟩

theorem Sound.run : ∀ {ss : List Statement} {blocks : List OpenBlock}, Sound blocks →
    (∀ s ∈ ss, ∃ n, s.tree = .ok n) → ∃ blocks', run blocks ss = .ok blocks' ∧ Sound blocks'
  | [], blocks, h, _ => ⟨blocks, rfl, h⟩
  | s :: ss, blocks, h, hss => by
    rw [List.forall_mem_cons] at hss
    obtain ⟨⟨n, hn⟩, hss⟩ := hss
    obtain ⟨blocks₁, hstep, hsound⟩ := h.step hn
    obtain ⟨blocks₂, hrun, hsound⟩ := hsound.run hss
    exact ⟨blocks₂, bind_eq_ok.2 ⟨blocks₁, hstep, hrun⟩, hsound⟩

theorem sound_root : Sound [root] := ⟨⟨[], [], rfl⟩, List.pairwise_singleton ..⟩

end OpenBlock

/-! ## Programs -/

theorem exists_buildAll {ss : List Statement} (h : ∀ s ∈ ss, ∃ n, s.tree = .ok n) :
    ∃ nodes, buildAll ss = .ok nodes := by
  cases hbuild : buildAll ss with
  | ok nodes => exact ⟨nodes, rfl⟩
  | error e =>
    obtain ⟨s, hs, he⟩ := exists_of_buildAll_eq_error hbuild
    obtain ⟨n, hn⟩ := h s hs
    rw [he] at hn
    cases hn

/-- If every statement has a node of its own, then whatever the depths of the statements are, the tree of the
program before its branches are merged has these nodes, one for each statement and in the order of the program,
and the statements of each node and of the root are the trees of its children. The stack of open blocks
builds this tree, and the root is at its bottom after any number of statements. -/
theorem build_eq_nesting {ss : List Statement} {f : Nat → Node}
    (h : ∀ (i : Nat) (s : Statement), ss[i]? = some s → s.tree = .ok (f i)) :
    ∃ nodes, buildAll ss = .ok nodes ∧
      Node.ofStatements ss = (mergeBranches ((nest nodes).map (·.2)) >>= fun body =>
        .ok (OpenBlock.root.node.withStatements body)) ∧
      (nest nodes).map (·.2) = (children ss none).map (treeAt ss f) ∧
      Node.preorders ((nest nodes).map (·.2)) = (List.range ss.length).map f ∧
      OpenBlock.build ss = .ok (OpenBlock.root.node.withStatements ((nest nodes).map (·.2))) ∧
      ∀ done, done <+: ss → ∃ blocks, OpenBlock.run [OpenBlock.root] done = .ok blocks ∧ OpenBlock.Sound blocks := by
  have htrees : ∀ s ∈ ss, ∃ n, s.tree = .ok n := by
    intro s hs
    obtain ⟨i, hi⟩ := List.mem_iff_getElem?.1 hs
    exact ⟨f i, h i s hi⟩
  obtain ⟨nodes, hbuild⟩ := exists_buildAll htrees
  have hstack := OpenBlock.build_of_buildAll hbuild
  obtain ⟨rfl, hnodes⟩ := buildAll_eq_ok_iff.1 hbuild
  have hf : ∀ (i : Nat) (p : Statement × Node), nodes[i]? = some p → p.2 = f i ∧ p.2.statements = [] := by
    intro i p hp
    have htree := hnodes p (List.mem_of_getElem? hp)
    have hi := h i p.1 (by rw [List.getElem?_map, hp]; rfl)
    exact ⟨Except.ok.inj (htree.symm.trans hi), statements_ofTokens htree⟩
  refine ⟨nodes, hbuild, ?_, ?_, ?_, hstack, ?_⟩
  · rw [Node.ofStatements, hbuild]
    rfl
  · rw [nest_eq_treeAt hf, List.map_map]
    rfl
  · rw [preorders_nest fun p hp => statements_ofTokens (hnodes p hp), List.length_map]
    refine List.ext_getElem (by simp) fun i hi _ => ?_
    rw [List.length_map] at hi
    rw [List.getElem_map, List.getElem_map, List.getElem_range, (hf i _ (List.getElem?_eq_getElem hi)).1]
  · exact fun done hdone => OpenBlock.sound_root.run fun s hs => htrees s (hdone.subset hs)

/-- A loop at depth 4 and one at depth 2, each with one statement in it, though the depths jump. -/
theorem build_eq_nesting_loops :
    let loop (depth : Nat) : Statement := ⟨1, depth, ["while", "(", "x", ")"], true⟩
    let ss : List Statement := [loop 4, ⟨1, 9, ["a"], false⟩, loop 2, ⟨1, 7, ["b"], false⟩, ⟨1, 2, ["c"], false⟩]
    let loopNode : Node := .apply (.call "while") 1 [.leaf (.read "x") 1]
    children ss none = [0, 2, 4] ∧ children ss (some 2) = [3] ∧
      OpenBlock.build ss = .ok (.mk (.function rootName .nothing) 1 [] [loopNode.withStatements [.leaf (.read "a") 1],
        loopNode.withStatements [.leaf (.read "b") 1], .leaf (.read "c") 1]) := by
  intro loop ss loopNode
  let f : Nat → Node := fun i =>
    [loopNode, .leaf (.read "a") 1, loopNode, .leaf (.read "b") 1].getD i (.leaf (.read "c") 1)
  have htrees : ∀ (i : Nat) (s : Statement), ss[i]? = some s → s.tree = .ok (f i) := by
    have hleaf (t : Token) (depth : Nat) (n : Node)
        (hn : (Form.ofTokens [t]).build 1 (fun p _ => Node.ofTokens 1 p) = .ok n) :
        Statement.tree ⟨1, depth, [t], false⟩ = .ok n := by
      rw [Statement.tree, Node.ofTokens, hn]
    intro i s hs
    rcases i with _ | _ | _ | _ | _ | i <;> cases hs
    · exact ofTokens_while
    · exact hleaf "a" 9 _ rfl
    · exact ofTokens_while
    · exact hleaf "b" 7 _ rfl
    · exact hleaf "c" 2 _ rfl
  obtain ⟨nodes, -, -, htree, -, hstack, -⟩ := build_eq_nesting htrees
  have hroot : children ss none = [0, 2, 4] := by decide
  have hfirst : children ss (some 0) = [1] := by decide
  have hsecond : children ss (some 2) = [3] := by decide
  have hsimple {i : Nat} (hi : children ss (some i) = []) : treeAt ss f i = (f i).withStatements [] := by
    rw [treeAt_eq, hi, List.map_nil]
  refine ⟨hroot, hsecond, ?_⟩
  rw [hstack, htree, hroot, List.map_cons, List.map_cons, List.map_singleton, treeAt_eq ss f 0, treeAt_eq ss f 2,
    hfirst, hsecond, List.map_singleton, List.map_singleton, hsimple (i := 1) (by decide),
    hsimple (i := 3) (by decide), hsimple (i := 4) (by decide)]
  rfl

end WordMachine.Cflat

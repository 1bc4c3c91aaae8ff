/-
This file shows that the walk through the nodes below a node takes each of its children followed by
the nodes below that child, when the links of the document agree.
-/

import ElementQuery.Proofs.Document.Links

namespace ElementQuery.Document.Linked

variable {document : Document} {top parent child id ancestor : NodeId}

theorem mem_ancestors_of_parent? (linked : document.Linked)
    (owned : document.parent? id = some parent) : parent ∈ document.ancestors id := by
  rw [linked.ancestors_of_parent? owned]
  exact List.mem_cons_self

theorem ancestors_trans (linked : document.Linked) (above : top ∈ document.ancestors ancestor)
    (below : ancestor ∈ document.ancestors id) : top ∈ document.ancestors id := by
  induction id using linked.grounded.induction with
  | _ id inductionHypothesis =>
      obtain ⟨parent, owned, place⟩ := linked.mem_ancestors.1 below
      refine linked.mem_ancestors.2 ⟨parent, owned, .inr ?_⟩
      rcases place with rfl | further
      · exact above
      · exact inductionHypothesis parent owned further

/-- The ancestors of a node are those from which steps to children lead to it. -/
theorem mem_ancestors_iff_transGen (linked : document.Linked) :
    ancestor ∈ document.ancestors id ↔ Relation.TransGen
      (fun parent child : NodeId => document.parent? child = some parent) ancestor id := by
  constructor
  · intro above
    induction id using linked.grounded.induction with
    | _ id inductionHypothesis =>
        obtain ⟨parent, owned, rfl | further⟩ := linked.mem_ancestors.1 above
        · exact .single owned
        · exact .tail (inductionHypothesis parent owned further) owned
  · intro steps
    induction steps with
    | single owned => exact linked.mem_ancestors_of_parent? owned
    | tail _ owned inductionHypothesis =>
        exact linked.mem_ancestors.2 ⟨_, owned, .inr inductionHypothesis⟩

/-- What has the same parent as a node below a top hangs below the top, too. -/
theorem mem_ancestors_of_sibling (linked : document.Linked) {other : NodeId}
    (owned : document.parent? other = some parent) (owns : document.parent? id = some parent)
    (below : top ∈ document.ancestors other) : top ∈ document.ancestors id := by
  rw [linked.ancestors_of_parent? owned] at below
  rwa [linked.ancestors_of_parent? owns]

/-- A node below another is one of its children or hangs below one of them. -/
theorem exists_child (linked : document.Linked) (below : ancestor ∈ document.ancestors id) :
    ∃ child, document.parent? child = some ancestor ∧
      (id = child ∨ child ∈ document.ancestors id) := by
  induction id using linked.grounded.induction with
  | _ id inductionHypothesis =>
      obtain ⟨parent, owned, rfl | further⟩ := linked.mem_ancestors.1 below
      · exact ⟨id, owned, .inl rfl⟩
      · obtain ⟨child, owns, place⟩ := inductionHypothesis parent owned further
        refine ⟨child, owns, .inr (linked.mem_ancestors.2 ⟨parent, owned, ?_⟩)⟩
        exact place.imp_left Eq.symm

/-- No node hangs below two children of one parent. -/
theorem child_unique (linked : document.Linked) {other : NodeId}
    (owned : document.parent? child = some parent) (owns : document.parent? other = some parent)
    (below : id = child ∨ child ∈ document.ancestors id)
    (under : id = other ∨ other ∈ document.ancestors id) : child = other := by
  have apart : ∀ {first second : NodeId}, document.parent? first = some parent →
      document.parent? second = some parent → second ∉ document.ancestors first := by
    intro first second owned owns below
    obtain ⟨_, same, place⟩ := linked.mem_ancestors.1 below
    obtain rfl := Option.some.inj (owned.symm.trans same)
    have above := linked.mem_ancestors_of_parent? owns
    rcases place with rfl | further
    · exact linked.not_mem_ancestors_self _ above
    · exact linked.not_mem_ancestors_self _ (linked.ancestors_trans above further)
  induction id using linked.grounded.induction with
  | _ id inductionHypothesis =>
      rcases below with rfl | below
      · rcases under with rfl | under
        · rfl
        · exact absurd under (apart owned owns)
      · rcases under with rfl | under
        · exact absurd below (apart owns owned)
        · obtain ⟨above, first, place⟩ := linked.mem_ancestors.1 below
          obtain ⟨_, second, spot⟩ := linked.mem_ancestors.1 under
          obtain rfl := Option.some.inj (first.symm.trans second)
          exact inductionHypothesis above first (place.imp_left Eq.symm) (spot.imp_left Eq.symm)

/-- What follows for a node from its children holds of every node, for no node hangs deeper than the
table is long. -/
theorem childInduction (linked : document.Linked) {motive : NodeId → Prop}
    (step : ∀ id, (∀ child ∈ document.children id, motive child) → motive id) (id : NodeId) :
    motive id := by
  induction measured : document.size - (document.ancestors id).length using Nat.strongRecOn
    generalizing id with
  | _ room inductionHypothesis =>
      refine step id fun child member => inductionHypothesis _ ?_ child rfl
      have deeper := linked.ancestors_of_parent? (linked.childIff.1 member)
      have bounded := @length_chain document.parent? document.size (document.parent? child)
      rw [← ancestors, deeper, List.length_cons] at bounded
      rw [deeper, List.length_cons]
      omega

/-- More steps than there are ancestors do not lead further up. -/
theorem climb?_add (linked : document.Linked) {steps more : Nat}
    (enough : (document.ancestors id).length < steps) :
    document.climb? top (steps + more) id = document.climb? top steps id := by
  induction steps generalizing id with
  | zero => simp at enough
  | succ steps inductionHypothesis =>
      rw [Nat.succ_add, climb?, climb?]
      cases owned : document.parent? id with
      | none => rfl
      | some parent =>
          rw [linked.ancestors_of_parent? owned, List.length_cons] at enough
          simp only [Option.bind_some, inductionHypothesis (Nat.lt_of_succ_lt_succ enough)]

theorem climb?_self : document.climb? top document.size top = none := by
  cases document.size with
  | zero => rfl
  | succ steps => rw [climb?, if_pos rfl]

theorem successor?_self : document.successor? top top = document.firstChild? top := by
  rw [successor?, climb?_self]
  cases document.firstChild? top <;> rfl

/-- Below the top, the climb from a child leads to the next child or else on from the parent. -/
theorem climb?_of_parent? (linked : document.Linked) (owned : document.parent? child = some parent)
    (different : child ≠ top) :
    document.climb? top document.size child =
      (document.next? child).or (document.climb? top document.size parent) := by
  have bounded := linked.length_ancestors_lt (lt_size_of_parent? owned)
  rw [linked.ancestors_of_parent? owned, List.length_cons] at bounded
  obtain ⟨steps, count⟩ : ∃ steps, document.size = steps + 1 :=
    ⟨document.size - 1, by omega⟩
  rw [count] at bounded ⊢
  have further : document.climb? top (steps + 1) parent = document.climb? top steps parent :=
    linked.climb?_add (Nat.lt_of_succ_lt_succ bounded)
  rw [further, climb?, if_neg different, owned]
  cases document.next? child <;> rfl

/-- The walk below a top goes from a node through the nodes below it and on to where the climb from
the node leads. -/
def Sweeps (document : Document) (id : NodeId) (below : List NodeId) : Prop :=
  ∀ top rest, document.isInclusiveDescendantOf id top = true →
    Walk (document.successor? top) (document.climb? top document.size id) rest →
    Walk (document.successor? top) (document.successor? top id) (below ++ rest)

/-- What is swept from the top on is all that the walk below it takes. -/
theorem Sweeps.walk {below : List NodeId} (sweeps : Sweeps document top below) :
    Walk (document.successor? top) (document.firstChild? top) below := by
  have walk := sweeps top [] (isInclusiveDescendantOf_iff.2 (.inl rfl)) (climb?_self ▸ Walk.finish)
  rwa [successor?_self, List.append_nil] at walk

/-- The nodes below the children of a node are swept one child after the other. -/
theorem sweeps_children (linked : document.Linked)
    (each : ∀ child ∈ document.children id, Sweeps document child (document.descendants child)) :
    Sweeps document id
      ((document.children id).flatMap fun child => child :: document.descendants child) := by
  intro top rest inside onwards
  have row : ∀ before after, document.children id = before ++ after →
      Walk (document.successor? top) (after.head?.or (document.climb? top document.size id))
        ((after.flatMap fun child => child :: document.descendants child) ++ rest) := by
    intro before after
    induction after generalizing before with
    | nil => exact fun _ => onwards
    | cons child after inductionHypothesis =>
        intro place
        have member : child ∈ document.children id := by simp [place]
        have owned := linked.childIff.1 member
        have below := linked.isInclusiveDescendantOf_of_parent? owned inside
        have different : child ≠ top := by
          intro same
          obtain rfl := same
          have above := linked.mem_ancestors_of_parent? owned
          rcases isInclusiveDescendantOf_iff.1 inside with rfl | further
          · exact linked.not_mem_ancestors_self _ above
          · exact linked.not_mem_ancestors_self _ (linked.ancestors_trans further above)
        have later := inductionHypothesis (before ++ [child]) (by simp [place])
        rw [← (linked.neighbours place).2, ← linked.climb?_of_parent? owned different] at later
        rw [List.flatMap_cons, List.append_assoc]
        exact .step (each child member top _ below later)
  have start := row [] (document.children id) rfl
  rw [successor?, firstChild?]
  cases first : (document.children id).head? with
  | none => simpa [first] using start
  | some child => simpa [first] using start

/-- Families of nodes below different children have no node in common. -/
theorem nodup_families (linked : document.Linked)
    (under : ∀ child ∈ document.children id, ∀ node ∈ document.descendants child,
      child ∈ document.ancestors node)
    (distinct : ∀ child ∈ document.children id, (document.descendants child).Nodup) :
    ((document.children id).flatMap fun child => child :: document.descendants child).Nodup := by
  have within : ∀ child ∈ document.children id, ∀ node ∈ child :: document.descendants child,
      node = child ∨ child ∈ document.ancestors node := fun child member node belongs =>
    (List.mem_cons.1 belongs).imp_right (under child member node)
  refine List.nodup_flatMap.2 ⟨fun child member => ?_, ?_⟩
  · refine List.nodup_cons.2 ⟨fun inside => ?_, distinct child member⟩
    exact linked.not_mem_ancestors_self child (under child member child inside)
  · apply (List.nodup_iff_pairwise_ne.1 (linked.distinct id)).imp_of_mem
    intro first second left right different node one two
    exact different (linked.child_unique (linked.childIff.1 left) (linked.childIff.1 right)
      (within first left node one) (within second right node two))

/-- The nodes below a node are its children, each followed by the nodes below it; they are swept
before the walk goes on, hang below the node, and are different. -/
theorem descendants_spec (linked : document.Linked) (id : NodeId) :
    document.descendants id =
        ((document.children id).flatMap fun child => child :: document.descendants child) ∧
      Sweeps document id (document.descendants id) ∧
      (∀ node ∈ document.descendants id, id ∈ document.ancestors node) ∧
      (document.descendants id).Nodup := by
  induction id using linked.childInduction with
  | step id inductionHypothesis =>
      have sweeps := linked.sweeps_children fun child member =>
        (inductionHypothesis child member).2.1
      have under : ∀ child ∈ document.children id, ∀ node ∈ document.descendants child,
          child ∈ document.ancestors node := fun child member =>
        (inductionHypothesis child member).2.2.1
      have distinct := linked.nodup_families under fun child member =>
        (inductionHypothesis child member).2.2.2
      have above : ∀ node ∈ (document.children id).flatMap fun child =>
          child :: document.descendants child, id ∈ document.ancestors node := by
        intro node member
        obtain ⟨child, among, belongs⟩ := List.mem_flatMap.1 member
        have parental := linked.mem_ancestors_of_parent? (linked.childIff.1 among)
        rcases List.mem_cons.1 belongs with rfl | below
        · exact parental
        · exact linked.ancestors_trans parental (under child among node below)
      have shape : document.descendants id =
          ((document.children id).flatMap fun child => child :: document.descendants child) := by
        refine sweeps.walk.chain_eq (length_le_size distinct fun node member => ?_)
        obtain ⟨parent, owned, -⟩ := linked.mem_ancestors.1 (above node member)
        exact lt_size_of_parent? owned
      rw [shape]
      exact ⟨rfl, sweeps, above, distinct⟩

/-- The nodes below a node are its children, each followed by the nodes below it. -/
theorem descendants_eq (linked : document.Linked) (id : NodeId) :
    document.descendants id =
      (document.children id).flatMap fun child => child :: document.descendants child :=
  (linked.descendants_spec id).1

/-- No node is taken twice. -/
theorem nodup_descendants (linked : document.Linked) (id : NodeId) :
    (document.descendants id).Nodup :=
  (linked.descendants_spec id).2.2.2

/-- The nodes below a node are those that have it among their ancestors. -/
theorem mem_descendants (linked : document.Linked) :
    id ∈ document.descendants top ↔ top ∈ document.ancestors id := by
  refine ⟨(linked.descendants_spec top).2.2.1 id, fun below => ?_⟩
  induction top using linked.childInduction with
  | step top inductionHypothesis =>
      obtain ⟨child, owned, place⟩ := linked.exists_child below
      have member := linked.childIff.2 owned
      rw [linked.descendants_eq]
      refine List.mem_flatMap.2 ⟨child, member, List.mem_cons.2 ?_⟩
      exact place.imp_right (inductionHypothesis child member)

theorem not_mem_descendants_self (linked : document.Linked) (id : NodeId) :
    id ∉ document.descendants id := fun below =>
  linked.not_mem_ancestors_self id (linked.mem_descendants.1 below)

/-- A node and the nodes below it are all different. -/
theorem nodup_subtree (linked : document.Linked) (id : NodeId) :
    (id :: document.descendants id).Nodup :=
  List.nodup_cons.2 ⟨linked.not_mem_descendants_self id, linked.nodup_descendants id⟩

end ElementQuery.Document.Linked

import QueryGraph.Proofs.Walk

namespace List

variable {α β : Type} [BEq α] [LawfulBEq α] [BEq β] [LawfulBEq β]

theorem eraseDups_map {f : α → β} {l : List α}
    (injective : ∀ a ∈ l, ∀ b ∈ l, f a = f b → a = b) :
    (l.map f).eraseDups = l.eraseDups.map f := by
  induction l using List.reverseRecOn with
  | nil => rfl
  | append_singleton l a ih =>
    have others := ih fun b hb c hc => injective b (mem_append_left _ hb) c (mem_append_left _ hc)
    have known : f a ∈ l.map f ↔ a ∈ l := by
      constructor
      · intro member
        obtain ⟨b, inside, same⟩ := mem_map.1 member
        rwa [← injective b (mem_append_left _ inside) a (by simp) same]
      · exact mem_map_of_mem
    rw [map_append, map_singleton, eraseDups_concat, eraseDups_concat, others]
    by_cases inside : a ∈ l
    · rw [if_pos inside, if_pos (known.2 inside)]
    · rw [if_neg inside, if_neg (mt known.1 inside), map_append, map_singleton]

end List

namespace QueryGraph.Graph

/-- Whether another graph has the nodes of a part of a graph, which operands do not lead out of.
Ids in the part stand for ids of the other graph. -/
structure Corresponds (graph graph' : Graph) (part : NodeId → Prop) (f : NodeId → NodeId)
    (counterpart : Node → Node) : Prop where
  wf : graph.WellFormed
  wf' : graph'.WellFormed
  closed : ∀ node ∈ graph.nodes, part node.id → ∀ id ∈ node.kind.operands, part id
  injective : ∀ a, part a → ∀ b, part b → f a = f b → a = b
  id : ∀ node, (counterpart node).id = f node.id
  operands : ∀ node, (counterpart node).kind.operands = node.kind.operands.map f
  find? : ∀ id, part id → graph'.find? (f id) = (graph.find? id).map counterpart

namespace Corresponds

variable {graph graph' : Graph} {part : NodeId → Prop} {f : NodeId → NodeId}
  {counterpart : Node → Node} (corresponds : Corresponds graph graph' part f counterpart)

include corresponds

theorem mem {node : Node} (inside : node ∈ graph.nodes) (within : part node.id) :
    counterpart node ∈ graph'.nodes := by
  have found := corresponds.find? node.id within
  rw [corresponds.wf.find?_eq_some.2 ⟨inside, rfl⟩, Option.map_some] at found
  exact (mem_of_find? found).1

theorem eq_of_counterpart {a b : Node} (ha : a ∈ graph.nodes ∧ part a.id)
    (hb : b ∈ graph.nodes ∧ part b.id) (same : counterpart a = counterpart b) : a = b := by
  refine corresponds.wf.eq_of_id ha.1 hb.1 (corresponds.injective a.id ha.2 b.id hb.2 ?_)
  rw [← corresponds.id, ← corresponds.id, same]

theorem eraseDups_map {nodes : List Node}
    (within : ∀ node ∈ nodes, node ∈ graph.nodes ∧ part node.id) :
    (nodes.map counterpart).eraseDups = nodes.eraseDups.map counterpart :=
  List.eraseDups_map fun a ha b hb => corresponds.eq_of_counterpart (within a ha) (within b hb)

theorem postorder {id : NodeId} (within : part id) :
    graph'.postorder (f id) = (graph.postorder id).map counterpart := by
  cases found : graph.find? id with
  | none =>
    have missing := corresponds.find? id within
    rw [found, Option.map_none] at missing
    rw [postorder_of_missing found, postorder_of_missing missing, List.map_nil]
  | some node =>
    obtain ⟨inside, rfl⟩ := mem_of_find? found
    refine corresponds.wf.induction (motive := fun id => part id →
      graph'.postorder (f id) = (graph.postorder id).map counterpart) ?_ inside within
    intro node inside ih within
    have step := corresponds.wf'.postorder_eq (corresponds.mem inside within)
    rw [corresponds.id, corresponds.operands, List.flatMap_map] at step
    rw [step, corresponds.wf.postorder_eq inside, List.map_append, List.map_singleton,
      List.map_flatMap]
    refine congrArg (· ++ _) (List.flatMap_congr fun operand isOperand => ?_)
    exact ih operand isOperand (corresponds.closed node inside within operand isOperand)

theorem within_postorder {id : NodeId} (within : part id) :
    ∀ node ∈ graph.postorder id, node ∈ graph.nodes ∧ part node.id := by
  intro node met
  cases found : graph.find? id with
  | none => simp [postorder_of_missing found] at met
  | some root =>
    obtain ⟨rootInside, rfl⟩ := mem_of_find? found
    obtain ⟨inside, path⟩ := (corresponds.wf.mem_postorder rootInside).1 met
    exact ⟨inside, path.within part corresponds.closed within⟩

theorem completed {done : List Node} (completed : graph.Completed done)
    (within : ∀ node ∈ done, part node.id) : graph'.Completed (done.map counterpart) := by
  induction completed with
  | nil => exact .nil
  | @snoc done node before inside fresh operands ih =>
    have earlier : ∀ node ∈ done, part node.id := fun node member =>
      within node (List.mem_append_left _ member)
    have last : part node.id := within node (by simp)
    rw [List.map_append, List.map_singleton]
    refine (ih earlier).snoc (corresponds.mem inside last) ?_ ?_
    · intro member
      obtain ⟨other, isDone, same⟩ := List.mem_map.1 member
      rw [corresponds.eq_of_counterpart ⟨before.inside isDone, earlier other isDone⟩
        ⟨inside, last⟩ same] at isDone
      exact fresh isDone
    · intro id isOperand
      rw [corresponds.operands] at isOperand
      obtain ⟨operand, listed, rfl⟩ := List.mem_map.1 isOperand
      obtain ⟨other, isDone, rfl⟩ := operands operand listed
      exact ⟨_, List.mem_map_of_mem isDone, corresponds.id other⟩

theorem walkTo {done : List Node} (completed : graph.Completed done)
    (within : ∀ node ∈ done, part node.id) {id : NodeId} (isPart : part id) :
    graph'.walkTo (done.map counterpart) (f id) = (graph.walkTo done id).map counterpart := by
  rw [(corresponds.wf'.walkTo_eq _ (corresponds.completed completed within)).2,
    (corresponds.wf.walkTo_eq _ completed).2, corresponds.postorder isPart, ← List.map_append,
    corresponds.eraseDups_map]
  intro node member
  rcases List.mem_append.1 member with isDone | met
  · exact ⟨completed.inside isDone, within node isDone⟩
  · exact corresponds.within_postorder isPart node met

theorem reach {roots : List NodeId} (within : ∀ root ∈ roots, part root) :
    graph'.reach (roots.map f) = (graph.reach roots).map counterpart := by
  have walks : (roots.map f).flatMap graph'.postorder =
      (roots.flatMap graph.postorder).map counterpart := by
    rw [List.flatMap_map, List.map_flatMap]
    exact List.flatMap_congr fun root isRoot => corresponds.postorder (within root isRoot)
  rw [(corresponds.wf'.reach_eq _).2, (corresponds.wf.reach_eq roots).2, walks,
    corresponds.eraseDups_map]
  intro node met
  obtain ⟨root, isRoot, met⟩ := List.mem_flatMap.1 met
  exact corresponds.within_postorder (within root isRoot) node met

end Corresponds

end QueryGraph.Graph

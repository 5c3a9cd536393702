import Mathlib.Data.Fintype.EquivFin
import Mathlib.Data.List.Perm.Subperm
import Mathlib.Logic.Relation
import TablePipeline.Graph.Order

/-!
# Orders in which every edge goes forward

Taking ready nodes never takes one twice, and takes a node only when no edge is left that leads into
it. So an order of all nodes is a permutation of them in which no edge goes back, and edges that can
be ordered so have no cycle.
-/

set_option autoImplicit false

namespace TablePipeline.Graph

variable {n m : Nat} {edges : EdgeList} {ready : List Nat}

theorem mem_lastOnly {ns : List Nat} : m ∈ lastOnly ns ↔ m ∈ ns := by
  induction ns with
  | nil => rfl
  | cons n ns ih =>
    rw [lastOnly]
    split
    · rename_i hn
      rw [ih, List.mem_cons]
      exact ⟨.inr, fun h => h.elim (fun heq => heq ▸ hn) id⟩
    · rw [List.mem_cons, List.mem_cons, ih]

theorem lastOnly_nodup (ns : List Nat) : (lastOnly ns).Nodup := by
  induction ns with
  | nil => exact List.nodup_nil
  | cons n ns ih =>
    rw [lastOnly]
    split
    · exact ih
    · rename_i hn
      exact List.nodup_cons.mpr ⟨fun h => hn (mem_lastOnly.mp h), ih⟩

def Free (edges : EdgeList) (ns : List Nat) : Prop := ∀ n ∈ ns, ∀ e ∈ edges, e.2 ≠ n

theorem mem_edgesWithout {e : Nat × Nat} : e ∈ edgesWithout n edges ↔ e ∈ edges ∧ e.1 ≠ n := by
  simp [edgesWithout]

/-- A released node had an edge from the one that is taken, and has none now. -/
theorem mem_released : m ∈ released n edges ↔
    (n, m) ∈ edges ∧ ∀ e ∈ edgesWithout n edges, e.2 ≠ m := by
  unfold released
  rw [List.mem_filter, mem_lastOnly, List.all_eq_true]
  simp only [bne_iff_ne]
  refine and_congr_left' ?_
  simp

theorem free_step (hfree : Free edges (n :: ready)) :
    Free (edgesWithout n edges) (ready ++ released n edges) := by
  intro m hm e he
  rcases List.mem_append.mp hm with hm | hm
  · exact hfree m (List.mem_cons_of_mem n hm) e (mem_edgesWithout.mp he).1
  · exact (mem_released.mp hm).2 e he

/-- What is ready after a node is taken: no edge leads into it, and nothing is there twice. -/
theorem ready_step (hfree : Free edges (n :: ready)) (hnodup : (n :: ready).Nodup) :
    Free (edgesWithout n edges) (ready ++ released n edges) ∧
      (ready ++ released n edges).Nodup := by
  constructor
  · exact free_step hfree
  · refine List.nodup_append.mpr ⟨(List.nodup_cons.mp hnodup).2, ?_, ?_⟩
    · exact (lastOnly_nodup _).filter _
    · rintro a ha b hb rfl
      exact hfree a (List.mem_cons_of_mem n ha) _ (mem_released.mp hb).1 rfl

theorem mem_takeReady (h : m ∈ (takeReady edges ready).1) :
    m ∈ ready ∨ ∃ e ∈ edges, e.2 = m := by
  induction edges, ready using takeReady.induct with
  | case1 edges =>
    rw [takeReady] at h
    exact .inl h
  | case2 edges n ready ih =>
    rw [takeReady] at h
    rcases List.mem_cons.mp h with rfl | h
    · exact .inl List.mem_cons_self
    · rcases ih h with h | ⟨e, he, heq⟩
      · rcases List.mem_append.mp h with h | h
        · exact .inl (List.mem_cons_of_mem n h)
        · exact .inr ⟨(n, m), (mem_released.mp h).1, rfl⟩
      · exact .inr ⟨e, (mem_edgesWithout.mp he).1, heq⟩

/-- No node is taken twice, and none before one that has an edge into it. -/
theorem takeReady_forward (hfree : Free edges ready) (hnodup : ready.Nodup) :
    (takeReady edges ready).1.Nodup ∧
      (takeReady edges ready).1.Pairwise fun a b => (b, a) ∉ edges := by
  induction edges, ready using takeReady.induct with
  | case1 edges =>
    rw [takeReady]
    exact ⟨List.nodup_nil, .nil⟩
  | case2 edges n ready ih =>
    obtain ⟨hfree', hnodup'⟩ := ready_step hfree hnodup
    obtain ⟨htaken, hforward⟩ := ih hfree' hnodup'
    have hn : n ∉ (takeReady (edgesWithout n edges) (ready ++ released n edges)).1 := by
      intro h
      rcases mem_takeReady h with h | ⟨e, he, heq⟩
      · rcases List.mem_append.mp h with h | h
        · exact (List.nodup_cons.mp hnodup).1 h
        · exact hfree n List.mem_cons_self _ (mem_released.mp h).1 rfl
      · exact hfree n List.mem_cons_self e (mem_edgesWithout.mp he).1 heq
    rw [takeReady]
    refine ⟨List.nodup_cons.mpr ⟨hn, htaken⟩, List.pairwise_cons.mpr ⟨?_, ?_⟩⟩
    · exact fun b _ he => hfree n List.mem_cons_self _ he rfl
    · refine hforward.imp_of_mem fun {a b} _ hb hnot he => hnot (mem_edgesWithout.mpr ⟨he, ?_⟩)
      rintro rfl
      exact hn hb

/-- The nodes that are ready before any is taken. -/
def free (count : Nat) (edges : EdgeList) : List Nat :=
  (List.range count).filter fun n => edges.all (·.2 != n)

variable {count : Nat} {order : List Nat}

theorem mem_free : n ∈ free count edges ↔ n < count ∧ ∀ e ∈ edges, e.2 ≠ n := by
  simp [free]

theorem free_free (edges : EdgeList) (count : Nat) : Free edges (free count edges) :=
  fun _ hn => (mem_free.mp hn).2

theorem mem_free_or (hn : n < count) : n ∈ free count edges ∨ ∃ e ∈ edges, e.2 = n := by
  by_cases hinto : ∃ e ∈ edges, e.2 = n
  · exact .inr hinto
  · exact .inl (mem_free.mpr ⟨hn, fun e he heq => hinto ⟨e, he, heq⟩⟩)

/-- All nodes that are taken, each of them once, and no edge leads back among them. -/
theorem takeReady_free (hedges : ∀ e ∈ edges, e.2 < count) :
    (takeReady edges (free count edges)).1.Subperm (List.range count) ∧
      (takeReady edges (free count edges)).1.Pairwise fun a b => (b, a) ∉ edges := by
  obtain ⟨hnodup, hforward⟩ :=
    takeReady_forward (free_free edges count) (List.nodup_range.filter _)
  refine ⟨hnodup.subperm fun m hm => List.mem_range.mpr ?_, hforward⟩
  rcases mem_takeReady hm with hm | ⟨e, he, rfl⟩
  · exact (mem_free.mp hm).1
  · exact hedges e he

theorem topologicalOrder_eq_ok_iff : topologicalOrder count edges = .ok order ↔
    order = (takeReady edges (free count edges)).1 ∧ order.length = count := by
  show (if (takeReady edges (free count edges)).1.length = count then _ else _) = _ ↔ _
  split
  · rename_i hlength
    exact ⟨fun h => Except.ok.inj h ▸ ⟨rfl, hlength⟩, fun h => h.1 ▸ rfl⟩
  · rename_i hlength
    exact ⟨(fun h => nomatch h), fun h => (hlength (h.1 ▸ h.2)).elim⟩

theorem topologicalOrder_eq_ok (hedges : ∀ e ∈ edges, e.2 < count)
    (h : topologicalOrder count edges = .ok order) :
    order.Perm (List.range count) ∧ order.Pairwise fun a b => (b, a) ∉ edges := by
  obtain ⟨rfl, hlength⟩ := topologicalOrder_eq_ok_iff.mp h
  obtain ⟨hsub, hforward⟩ := takeReady_free hedges
  exact ⟨hsub.perm_of_length_le (Nat.le_of_eq (List.length_range.trans hlength.symm)), hforward⟩

theorem idxOf_lt_of_edge {order : List Nat} (hforward : order.Pairwise fun a b => (b, a) ∉ edges)
    (hloop : ∀ e ∈ edges, e.1 ≠ e.2) (he : (m, n) ∈ edges) (hm : m ∈ order) (hn : n ∈ order) :
    order.idxOf m < order.idxOf n := by
  have hmi := List.idxOf_lt_length_of_mem hm
  have hni := List.idxOf_lt_length_of_mem hn
  rcases Nat.lt_trichotomy (order.idxOf m) (order.idxOf n) with hlt | heq | hgt
  · exact hlt
  · exact (hloop _ he ((List.idxOf_inj hm).mp heq)).elim
  · have hnot := List.pairwise_iff_getElem.mp hforward _ _ hni hmi hgt
    rw [List.getElem_idxOf, List.getElem_idxOf] at hnot
    exact (hnot he).elim

/-! ### Edges without a cycle -/

def EdgeList.Links (edges : EdgeList) (m n : Nat) : Prop := (m, n) ∈ edges

/-- A node that is not taken has an edge from another that is not. -/
theorem mem_takeReady_or (h : m ∈ ready ∨ ∃ e ∈ edges, e.2 = m) :
    m ∈ (takeReady edges ready).1 ∨ ∃ e ∈ edges, e.2 = m ∧ e.1 ∉ (takeReady edges ready).1 := by
  induction edges, ready using takeReady.induct with
  | case1 edges =>
    rw [takeReady]
    obtain h | ⟨e, he, hm⟩ := h
    · cases h
    · exact .inr ⟨e, he, hm, List.not_mem_nil⟩
  | case2 edges n ready ih =>
    rw [takeReady]
    by_cases hn : m = n
    · exact .inl (hn ▸ List.mem_cons_self)
    have hrest : m ∈ ready ++ released n edges ∨ ∃ e ∈ edgesWithout n edges, e.2 = m := by
      by_cases hinto : ∃ e ∈ edgesWithout n edges, e.2 = m
      · exact .inr hinto
      refine .inl (List.mem_append.mpr (h.imp (fun h => (List.mem_cons.mp h).resolve_left hn) ?_))
      rintro ⟨⟨a, b⟩, he, rfl⟩
      have ha : a = n := by
        by_contra hne
        exact hinto ⟨(a, b), mem_edgesWithout.mpr ⟨he, hne⟩, rfl⟩
      exact mem_released.mpr ⟨ha ▸ he, fun e he' heq => hinto ⟨e, he', heq⟩⟩
    obtain h | ⟨e, he, hm, hnot⟩ := ih hrest
    · exact .inl (List.mem_cons_of_mem n h)
    · obtain ⟨he, hne⟩ := mem_edgesWithout.mp he
      exact .inr ⟨e, he, hm, List.not_mem_cons_of_ne_of_not_mem hne hnot⟩

/-- Along edges without a cycle one comes back to a start. -/
theorem wellFounded_of_acyclic (hacyclic : ∀ n, ¬ Relation.TransGen edges.Links n n)
    (count : Nat) : WellFounded fun m n : Fin count => Relation.TransGen edges.Links m n := by
  have : IsTrans (Fin count) fun m n => Relation.TransGen edges.Links m n :=
    ⟨fun _ _ _ hmn hnk => hmn.trans hnk⟩
  have : Std.Irrefl fun m n : Fin count => Relation.TransGen edges.Links m n :=
    ⟨fun n => hacyclic n⟩
  exact Finite.wellFounded_of_trans_of_irrefl _

theorem exists_topologicalOrder (hedges : ∀ e ∈ edges, e.1 < count ∧ e.2 < count)
    (hacyclic : ∀ n, ¬ Relation.TransGen edges.Links n n) :
    ∃ order, topologicalOrder count edges = .ok order := by
  have htaken (n : Fin count) : n.1 ∈ (takeReady edges (free count edges)).1 := by
    induction n using (wellFounded_of_acyclic hacyclic count).induction with
    | _ n ih =>
      obtain h | ⟨⟨a, b⟩, he, rfl, hnot⟩ := mem_takeReady_or (mem_free_or n.2)
      · exact h
      · exact (hnot (ih ⟨a, (hedges _ he).1⟩ (.single he))).elim
  obtain ⟨hsub, -⟩ := takeReady_free fun e he => (hedges e he).2
  have hall : (List.range count).Subperm (takeReady edges (free count edges)).1 :=
    List.nodup_range.subperm fun n hn => htaken ⟨n, List.mem_range.mp hn⟩
  refine ⟨_, topologicalOrder_eq_ok_iff.mpr ⟨rfl, ?_⟩⟩
  exact (hsub.antisymm hall).length_eq.trans List.length_range

end TablePipeline.Graph

import Mathlib.Order.WellFounded
import TablePipeline.Proofs.Graph.Ordering

/-!
# Nodes on a cycle and behind one

A node is taken after all nodes with an edge into it. So a node that is not taken has an edge from
another that is not, and from there one comes back to a cycle; and a node on a cycle is never taken.
What cannot be ordered are therefore the nodes on cycles and behind them, and nothing else.
-/

set_option autoImplicit false

namespace TablePipeline.Graph

open Relation (TransGen ReflTransGen)

variable {n m count : Nat} {edges : EdgeList} {ready : List Nat}

/-- A node is taken only after each node with an edge into it. -/
theorem takeReady_after (hfree : Free edges ready) (he : (m, n) ∈ edges)
    (hn : n ∈ (takeReady edges ready).1) :
    m ∈ (takeReady edges ready).1 ∧
      (takeReady edges ready).1.idxOf m < (takeReady edges ready).1.idxOf n := by
  induction edges, ready using takeReady.induct with
  | case1 edges =>
    rw [takeReady] at hn
    exact (hfree n hn _ he rfl).elim
  | case2 edges first ready ih =>
    rw [takeReady] at hn ⊢
    dsimp only at hn ⊢
    have hne : first ≠ n := by
      rintro rfl
      exact hfree first List.mem_cons_self _ he rfl
    have hn := (List.mem_cons.mp hn).resolve_left hne.symm
    rw [List.idxOf_cons_ne _ hne]
    by_cases hm : first = m
    · subst hm
      rw [List.idxOf_cons_self]
      exact ⟨List.mem_cons_self, Nat.succ_pos _⟩
    · obtain ⟨hmem, hlt⟩ := ih (free_step hfree) (mem_edgesWithout.mpr ⟨he, Ne.symm hm⟩) hn
      rw [List.idxOf_cons_ne _ hm]
      exact ⟨List.mem_cons_of_mem first hmem, Nat.succ_lt_succ hlt⟩

/-- The edges that are left are those from nodes that are not taken. -/
theorem mem_left_iff {e : Nat × Nat} :
    e ∈ (takeReady edges ready).2 ↔ e ∈ edges ∧ e.1 ∉ (takeReady edges ready).1 := by
  induction edges, ready using takeReady.induct with
  | case1 edges => simp [takeReady]
  | case2 edges first ready ih =>
    rw [takeReady]
    dsimp only
    rw [ih, mem_edgesWithout, List.mem_cons, not_or, and_assoc]

/-- A node is not taken just if there is an edge into it from one that is not. -/
theorem not_mem_takeReady_iff (hn : n < count) :
    n ∉ (takeReady edges (free count edges)).1 ↔
      ∃ m, m ∉ (takeReady edges (free count edges)).1 ∧ (m, n) ∈ edges := by
  constructor
  · intro hnot
    obtain ⟨⟨a, b⟩, he, rfl, ha⟩ := (mem_takeReady_or (mem_free_or hn)).resolve_left hnot
    exact ⟨a, ha, he⟩
  · rintro ⟨m, hm, he⟩ htaken
    exact hm (takeReady_after (free_free edges count) he htaken).1

/-! ### Paths -/

theorem idxOf_lt_of_path (hpath : TransGen edges.Links m n)
    (hn : n ∈ (takeReady edges (free count edges)).1) :
    m ∈ (takeReady edges (free count edges)).1 ∧
      (takeReady edges (free count edges)).1.idxOf m <
        (takeReady edges (free count edges)).1.idxOf n := by
  induction hpath with
  | single he => exact takeReady_after (free_free edges count) he hn
  | tail _ he ih =>
    obtain ⟨hmid, hlt⟩ := takeReady_after (free_free edges count) he hn
    obtain ⟨hm, hlt'⟩ := ih hmid
    exact ⟨hm, Nat.lt_trans hlt' hlt⟩

theorem not_mem_takeReady_of_cycle (hcycle : TransGen edges.Links m m)
    (hpath : ReflTransGen edges.Links m n) : n ∉ (takeReady edges (free count edges)).1 := by
  intro hn
  have hm : m ∈ (takeReady edges (free count edges)).1 := by
    rcases Relation.reflTransGen_iff_eq_or_transGen.mp hpath with rfl | hpath
    · exact hn
    · exact (idxOf_lt_of_path hpath hn).1
  exact Nat.lt_irrefl _ (idxOf_lt_of_path hcycle hm).2

/-- Where each node of finitely many has an edge from another of them, each is on a cycle or behind
one. A first node in front of a given one would have another in front of it. -/
theorem exists_cycle_behind {S : Nat → Prop} (hlt : ∀ n, S n → n < count)
    (hback : ∀ n, S n → ∃ m, S m ∧ edges.Links m n) (hn : S n) :
    ∃ m, TransGen edges.Links m m ∧ ReflTransGen edges.Links m n := by
  by_contra hno
  have : IsTrans (Fin count) fun a b =>
      TransGen edges.Links a b ∧ ReflTransGen edges.Links b n :=
    ⟨fun _ _ _ hab hbc => ⟨hab.1.trans hbc.1, hbc.2⟩⟩
  have : Std.Irrefl fun a b : Fin count =>
      TransGen edges.Links a b ∧ ReflTransGen edges.Links b n :=
    ⟨fun a h => hno ⟨a, h⟩⟩
  have hwf : WellFounded fun a b : Fin count =>
      TransGen edges.Links a b ∧ ReflTransGen edges.Links b n :=
    Finite.wellFounded_of_trans_of_irrefl _
  obtain ⟨a, ⟨ha, hpath⟩, hfirst⟩ :=
    hwf.has_min {a | S a ∧ ReflTransGen edges.Links a n} ⟨⟨n, hlt n hn⟩, hn, .refl⟩
  obtain ⟨b, hb, hedge⟩ := hback a ha
  exact hfirst ⟨b, hlt b hb⟩ ⟨hb, .head hedge hpath⟩ ⟨.single hedge, hpath⟩

/-- The nodes that are not taken are those on a cycle or behind one. -/
theorem not_mem_takeReady_iff_cycle (hedges : ∀ e ∈ edges, e.1 < count ∧ e.2 < count)
    (hn : n < count) :
    n ∉ (takeReady edges (free count edges)).1 ↔
      ∃ m, TransGen edges.Links m m ∧ ReflTransGen edges.Links m n := by
  constructor
  · intro hnot
    have hlt : ∀ n, n < count ∧ n ∉ (takeReady edges (free count edges)).1 → n < count :=
      fun _ h => h.1
    refine exists_cycle_behind hlt ?_ ⟨hn, hnot⟩
    rintro k ⟨hk, hnot⟩
    obtain ⟨m, hm, he⟩ := (not_mem_takeReady_iff hk).mp hnot
    exact ⟨m, ⟨(hedges _ he).1, hm⟩, he⟩
  · rintro ⟨m, hcycle, hpath⟩
    exact not_mem_takeReady_of_cycle hcycle hpath

/-! ### The order and the rest -/

theorem lt_of_path (hedges : ∀ e ∈ edges, e.1 < count ∧ e.2 < count)
    (hpath : TransGen edges.Links m n) : n < count := by
  cases hpath with
  | single he => exact (hedges _ he).2
  | tail _ he => exact (hedges _ he).2

variable {stuck : List Nat}

theorem topologicalOrder_eq_error_iff : topologicalOrder count edges = .error stuck ↔
    (takeReady edges (free count edges)).1.length ≠ count ∧
      stuck = (List.range count).filter fun n =>
        (takeReady edges (free count edges)).2.any (·.2 == n) := by
  show (if (takeReady edges (free count edges)).1.length = count then _ else _) = _ ↔ _
  split
  · rename_i hlength
    exact ⟨(fun h => nomatch h), fun h => (h.1 hlength).elim⟩
  · rename_i hlength
    exact ⟨fun h => ⟨hlength, (Except.error.inj h).symm⟩, fun h => h.2 ▸ rfl⟩

theorem mem_stuck_iff (h : topologicalOrder count edges = .error stuck) :
    n ∈ stuck ↔ n < count ∧ n ∉ (takeReady edges (free count edges)).1 := by
  obtain ⟨-, rfl⟩ := topologicalOrder_eq_error_iff.mp h
  rw [List.mem_filter, List.mem_range, List.any_eq_true]
  refine and_congr_right fun hn => ?_
  rw [not_mem_takeReady_iff hn]
  constructor
  · rintro ⟨⟨a, b⟩, he, hb⟩
    obtain rfl := beq_iff_eq.mp hb
    obtain ⟨he, ha⟩ := mem_left_iff.mp he
    exact ⟨a, ha, he⟩
  · rintro ⟨m, hm, he⟩
    exact ⟨(m, n), mem_left_iff.mpr ⟨he, hm⟩, beq_self_eq_true n⟩

theorem stuck_ne_nil (hedges : ∀ e ∈ edges, e.2 < count)
    (h : topologicalOrder count edges = .error stuck) : stuck ≠ [] := by
  rintro rfl
  obtain ⟨hsub, -⟩ := takeReady_free hedges
  have hall : (List.range count).Subperm (takeReady edges (free count edges)).1 := by
    refine List.nodup_range.subperm fun n hn => ?_
    by_contra hnot
    exact List.not_mem_nil ((mem_stuck_iff h).mpr ⟨List.mem_range.mp hn, hnot⟩)
  exact (topologicalOrder_eq_error_iff.mp h).1
    ((hsub.antisymm hall).length_eq.trans List.length_range)

theorem acyclic_of_topologicalOrder {order : List Nat}
    (hedges : ∀ e ∈ edges, e.1 < count ∧ e.2 < count)
    (h : topologicalOrder count edges = .ok order) (n : Nat) : ¬TransGen edges.Links n n := by
  intro hcycle
  obtain ⟨rfl, -⟩ := topologicalOrder_eq_ok_iff.mp h
  obtain ⟨hperm, -⟩ := topologicalOrder_eq_ok (fun e he => (hedges e he).2) h
  exact not_mem_takeReady_of_cycle hcycle .refl
    (hperm.mem_iff.mpr (List.mem_range.mpr (lt_of_path hedges hcycle)))

/-- Nodes have an order just if their edges have no cycle. It holds each node once, and each edge
goes forward in it. Otherwise the nodes that are on a cycle or behind one are reported, in
increasing order; there are some. -/
theorem topologicalOrder_sound_complete (hedges : ∀ e ∈ edges, e.1 < count ∧ e.2 < count) :
    ((∃ order, topologicalOrder count edges = .ok order) ↔ ∀ n, ¬TransGen edges.Links n n) ∧
      (∀ order, topologicalOrder count edges = .ok order →
        order.Perm (List.range count) ∧ ∀ e ∈ edges, order.idxOf e.1 < order.idxOf e.2) ∧
      ∀ stuck, topologicalOrder count edges = .error stuck →
        stuck ≠ [] ∧ stuck.Pairwise (· < ·) ∧
          ∀ n, n ∈ stuck ↔ ∃ m, TransGen edges.Links m m ∧ ReflTransGen edges.Links m n := by
  refine ⟨⟨fun ⟨_, h⟩ => acyclic_of_topologicalOrder hedges h,
    exists_topologicalOrder hedges⟩, fun order h => ?_, fun stuck h => ?_⟩
  · obtain ⟨hperm, -⟩ := topologicalOrder_eq_ok (fun e he => (hedges e he).2) h
    obtain ⟨rfl, -⟩ := topologicalOrder_eq_ok_iff.mp h
    refine ⟨hperm, fun e he => (takeReady_after (free_free edges count) he ?_).2⟩
    exact hperm.mem_iff.mpr (List.mem_range.mpr (hedges e he).2)
  · refine ⟨stuck_ne_nil (fun e he => (hedges e he).2) h, ?_, fun n => ?_⟩
    · obtain ⟨-, rfl⟩ := topologicalOrder_eq_error_iff.mp h
      exact List.pairwise_lt_range.filter _
    · rw [mem_stuck_iff h]
      constructor
      · exact fun ⟨hn, hnot⟩ => (not_mem_takeReady_iff_cycle hedges hn).mp hnot
      · rintro ⟨m, hcycle, hpath⟩
        have hn : n < count := by
          rcases Relation.reflTransGen_iff_eq_or_transGen.mp hpath with rfl | hpath
          · exact lt_of_path hedges hcycle
          · exact lt_of_path hedges hpath
        exact ⟨hn, not_mem_takeReady_of_cycle hcycle hpath⟩

/-- Two nodes that lead to each other, one in front of them and one behind. -/
def loop : EdgeList := [(0, 1), (1, 2), (2, 1), (2, 3), (1, 2)]

theorem topologicalOrder_sound_complete_loop :
    (∀ e ∈ loop, e.1 < 5 ∧ e.2 < 5) ∧ topologicalOrder 5 loop = .error [1, 2, 3] ∧
      ∃ m, TransGen loop.Links m m ∧ ReflTransGen loop.Links m 3 := by
  have hedges : ∀ e ∈ loop, e.1 < 5 ∧ e.2 < 5 := by decide
  have herror : topologicalOrder 5 loop = .error [1, 2, 3] := by decide +kernel
  obtain ⟨-, -, hstuck⟩ := topologicalOrder_sound_complete hedges
  obtain ⟨-, -, hmem⟩ := hstuck _ herror
  exact ⟨hedges, herror, (hmem 3).mp (by decide)⟩

end TablePipeline.Graph

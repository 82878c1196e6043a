import RoutineChain.Proof.Docket
import RoutineChain.Proof.Locality

/-!
# Transactions in any order

Transactions that touch disjoint keys do not see each other: in any order they lead to the same
store, each with the answer that it would have got first (`independent_commute`).
-/

namespace RoutineChain

open EStateM Footprint

variable {P : Params} {x y : Execution} {l l' : List Timed}

/-- The transaction touches nothing that the other one touches in the store. -/
def Timed.Independent (s : Store) (act act' : Timed) : Prop :=
  Disjoint (act.1.touches s) (act'.1.touches s)

instance (s : Store) (act act' : Timed) : Decidable (act.Independent s act') :=
  inferInstanceAs (Decidable (Disjoint _ _))

/-- What a transaction returns is read off its answer. -/
theorem returned_congr {act : Timed}
    (h : (execute P act.1 act.2).answer x.store = (execute P act.1 act.2).answer y.store) :
    x.returned P act = y.returned P act := by
  unfold EStateM.answer at h
  unfold Execution.returned
  cases hx : (execute P act.1 act.2).run x.store <;>
    cases hy : (execute P act.1 act.2).run y.store <;> simp_all

/-- The store after a run. -/
theorem run_store (P : Params) (x : Execution) (l : List Timed) :
    (Runs.run (Execution.execute P) x l).store =
      Runs.run (fun s (act : Timed) => after (execute P act.1 act.2) s) x.store l := by
  have hstep : ∀ (y : Execution) s (act : Timed), y.store = s →
      (y.execute P act).store = after (execute P act.1 act.2) s := by
    rintro y _ act rfl
    exact y.execute_store P act
  exact Runs.sim_run (R := fun (y : Execution) s => y.store = s) hstep rfl l

/-- The events of a run in which each transaction returns what `f` says. -/
theorem run_events {f : Timed → List Event}
    (h : Runs.Along (Execution.execute P) (fun y act => y.returned P act = f act) x l) :
    (Runs.run (Execution.execute P) x l).events = x.events ++ l.flatMap f := by
  induction l generalizing x with
  | nil => exact (List.append_nil _).symm
  | cons act l ih =>
    rw [Runs.run_cons, ih h.2, Execution.events_returned, h.1, List.append_assoc,
      List.flatMap_cons]

/-- Independent transactions answer as on the first store. -/
theorem answers_independent (P : Params) (x : Execution) {l : List Timed}
    (hd : l.Pairwise (Timed.Independent x.store)) :
    Runs.Along (Execution.execute P) (fun y act =>
      (execute P act.1 act.2).answer y.store = (execute P act.1 act.2).answer x.store) x l := by
  have hstores := (local_touches P).answers (s := x.store) (l := l)
    (hd.imp fun h => Finset.disjoint_coe.2 h)
  refine Runs.Along.sim (R := fun s (y : Execution) => y.store = s) ?_ ?_ rfl hstores
  · rintro _ y act rfl
    exact y.execute_store P act
  · rintro _ y act rfl h
    exact h

/-- **Independent transactions can be executed in any order.** The store is the same, every
transaction returns what it would have returned first, and the events differ in their order
only. -/
theorem independent_commute (P : Params) (x : Execution) {l l' : List Timed}
    (hd : l.Pairwise (Timed.Independent x.store)) (hp : l.Perm l') :
    (Runs.run (Execution.execute P) x l').store = (Runs.run (Execution.execute P) x l).store ∧
      Runs.Along (Execution.execute P) (fun y act =>
        (execute P act.1 act.2).answer y.store = (execute P act.1 act.2).answer x.store) x l' ∧
      (Runs.run (Execution.execute P) x l').events.Perm
        (Runs.run (Execution.execute P) x l).events := by
  have hd' : l'.Pairwise (Timed.Independent x.store) := hp.pairwise hd fun h => h.symm
  have hevents : ∀ {l : List Timed}, l.Pairwise (Timed.Independent x.store) →
      (Runs.run (Execution.execute P) x l).events =
        x.events ++ l.flatMap (x.returned P) := by
    intro l hd
    exact run_events ((answers_independent P x hd).mono fun _ _ h => returned_congr h)
  refine ⟨?_, answers_independent P x hd', ?_⟩
  · rw [run_store, run_store]
    exact ((local_touches P).run_perm hp (hd.imp fun h => Finset.disjoint_coe.2 h)).symm
  · rw [hevents hd, hevents hd']
    exact (hp.symm.flatMap_right _).append_left _

/-- After the trade the buyer releases the escrow, 3 registers, and 4 spends what it has not. -/
def toyIndependent : List Timed :=
  [(.toy 1 3 (.releaseEscrow 7 0), 10), (.toy 3 1 (.registerParticipant 3 .arbiter ""), 10),
    (.toy 4 1 (.spendRCW 5 ""), 10)]

/-- They can be executed in the opposite order. -/
theorem independent_commute_toy :
    (Runs.run (Execution.execute .default) (executeAll .default toyTrade)
        toyIndependent.reverse).store =
      (Runs.run (Execution.execute .default) (executeAll .default toyTrade) toyIndependent).store ∧
    Runs.Along (Execution.execute .default) (fun y act =>
      (execute .default act.1 act.2).answer y.store =
        (execute .default act.1 act.2).answer (executeAll .default toyTrade).store)
      (executeAll .default toyTrade) toyIndependent.reverse ∧
    (Runs.run (Execution.execute .default) (executeAll .default toyTrade)
        toyIndependent.reverse).events.Perm
      (Runs.run (Execution.execute .default) (executeAll .default toyTrade)
        toyIndependent).events :=
  independent_commute .default _ (by decide +kernel) (List.reverse_perm toyIndependent).symm

end RoutineChain

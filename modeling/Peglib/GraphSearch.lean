import Mathlib.Algebra.GroupWithZero.Nat
import Mathlib.Data.List.Dedup
import Mathlib.Logic.Relation
import Mathlib.Tactic.Common

/-!
# Searching a graph with a stack

A search marks what it finds when it is pushed, so that nothing is pushed twice.
It ends once every vertex of a finite set was popped at most once, and it has
found what can be reached from where it started.

A sweep marks when it pops. A vertex may be pushed again before that, but no more
often than there are edges, and it is visited once.
-/

namespace Peglib.GraphSearch

set_option autoImplicit false

variable {Vertex : Type} [DecidableEq Vertex] (next : Vertex → List Vertex)

/-- Pushes the successors that were not found before. -/
def push : List Vertex → List Vertex → List Vertex → List Vertex × List Vertex
  | [], stack, found => (stack, found)
  | vertex :: rest, stack, found =>
      if vertex ∈ found then push rest stack found
      else push rest (vertex :: stack) (vertex :: found)

/-- The loop; none where the budget of pops was too small. -/
def search : Nat → List Vertex → List Vertex → Option (List Vertex)
  | _, [], found => some found
  | 0, _ :: _, _ => none
  | fuel + 1, vertex :: stack, found =>
      search fuel (push (next vertex) stack found).1 (push (next vertex) stack found).2

/-- How many vertices of a finite set are still to be found. -/
def missing (all : List Vertex) (found : List Vertex) : Nat :=
  (all.filter fun vertex => vertex ∉ found).length

theorem filter_visited {all found : List Vertex} {vertex : Vertex} (unique : all.Nodup) :
    all.filter (fun other => other ∉ vertex :: found) =
      (all.filter fun other => other ∉ found).erase vertex := by
  rw [(unique.filter _).erase_eq_filter, List.filter_filter]
  refine List.filter_congr fun other _ => ?_
  by_cases same : other = vertex <;> simp [same]

theorem missing_found {all found : List Vertex} {vertex : Vertex} (unique : all.Nodup)
    (inside : vertex ∈ all) (fresh : vertex ∉ found) :
    missing all (vertex :: found) + 1 = missing all found := by
  have without : all.filter (fun other => other ∉ vertex :: found) =
      (all.filter fun other => other ∉ found).erase vertex := filter_visited unique
  have held : vertex ∈ all.filter fun other => other ∉ found := by
    simp [inside, fresh]
  have positive := List.length_pos_of_mem held
  unfold missing
  rw [without, List.length_erase_of_mem held]
  omega

section Push

variable {successors stack found : List Vertex}

theorem push_found (vertex : Vertex) :
    vertex ∈ (push successors stack found).2 ↔ vertex ∈ found ∨ vertex ∈ successors := by
  induction successors generalizing stack found with
  | nil => simp [push]
  | cons first rest induction =>
      unfold push
      split_ifs with old
      · rw [induction, List.mem_cons]
        constructor
        · rintro (held | later)
          · exact Or.inl held
          · exact Or.inr (Or.inr later)
        · rintro (held | rfl | later)
          · exact Or.inl held
          · exact Or.inl old
          · exact Or.inr later
      · rw [induction, List.mem_cons, List.mem_cons]
        tauto

/-- What is new is on the stack, and nothing leaves it. -/
theorem push_stack (vertex : Vertex) :
    vertex ∈ (push successors stack found).1 ↔
      vertex ∈ stack ∨ (vertex ∉ found ∧ vertex ∈ successors) := by
  induction successors generalizing stack found with
  | nil => simp [push]
  | cons first rest induction =>
      unfold push
      split_ifs with old
      · rw [induction, List.mem_cons]
        constructor
        · rintro (held | ⟨fresh, later⟩)
          · exact Or.inl held
          · exact Or.inr ⟨fresh, Or.inr later⟩
        · rintro (held | ⟨fresh, rfl | later⟩)
          · exact Or.inl held
          · exact absurd old fresh
          · exact Or.inr ⟨fresh, later⟩
      · rw [induction, List.mem_cons, List.mem_cons, List.mem_cons]
        by_cases same : vertex = first
        · subst same
          simp [old]
        · simp [same]

theorem push_measure {all : List Vertex} (unique : all.Nodup)
    (inside : ∀ vertex ∈ successors, vertex ∈ all) :
    (push successors stack found).1.length + missing all (push successors stack found).2 =
      stack.length + missing all found := by
  induction successors generalizing stack found with
  | nil => rfl
  | cons first rest induction =>
      have others : ∀ vertex ∈ rest, vertex ∈ all := fun vertex member =>
        inside vertex (List.mem_cons_of_mem _ member)
      unfold push
      split_ifs with old
      · exact induction others
      · have one := missing_found unique (inside first List.mem_cons_self) old
        rw [induction others, List.length_cons]
        omega

end Push

/-- The relation whose closure is searched. -/
def Leads (vertex other : Vertex) : Prop := other ∈ next vertex

/-- What was found before is found, everything found can be reached, and what was
popped has its successors found. -/
theorem search_reaches {all : List Vertex} (unique : all.Nodup)
    (inside : ∀ vertex ∈ all, ∀ other ∈ next vertex, other ∈ all)
    (fuel : Nat) (stack found : List Vertex)
    (within : ∀ vertex ∈ found, vertex ∈ all)
    (stacked : ∀ vertex ∈ stack, vertex ∈ found)
    (closed : ∀ vertex ∈ found, vertex ∉ stack → ∀ other ∈ next vertex, other ∈ found)
    (enough : stack.length + missing all found ≤ fuel) :
    ∃ result, search next fuel stack found = some result ∧
      ∀ vertex, vertex ∈ result ↔
        ∃ origin ∈ found, Relation.ReflTransGen (Leads next) origin vertex := by
  have ended : ∀ found : List Vertex,
      (∀ vertex ∈ found, vertex ∉ ([] : List Vertex) → ∀ other ∈ next vertex, other ∈ found) →
      ∀ vertex, vertex ∈ found ↔
        ∃ origin ∈ found, Relation.ReflTransGen (Leads next) origin vertex := by
    intro found closed vertex
    refine ⟨fun held => ⟨vertex, held, .refl⟩, ?_⟩
    rintro ⟨origin, held, path⟩
    induction path with
    | refl => exact held
    | tail _ edge held => exact closed _ held List.not_mem_nil _ edge
  induction fuel generalizing stack found with
  | zero =>
      cases stack with
      | nil => exact ⟨found, by unfold search; rfl, ended found closed⟩
      | cons vertex stack => simp at enough
  | succ fuel induction =>
      cases stack with
      | nil => exact ⟨found, by unfold search; rfl, ended found closed⟩
      | cons vertex stack =>
          have here : vertex ∈ found := stacked vertex List.mem_cons_self
          have below := inside vertex (within vertex here)
          have measure : (push (next vertex) stack found).1.length +
              missing all (push (next vertex) stack found).2 = stack.length + missing all found :=
            push_measure unique below
          have within' : ∀ other ∈ (push (next vertex) stack found).2, other ∈ all := by
            intro other held
            rcases (push_found other).mp held with old | new
            · exact within other old
            · exact below other new
          have stacked' : ∀ other ∈ (push (next vertex) stack found).1,
              other ∈ (push (next vertex) stack found).2 := by
            intro other held
            rcases (push_stack other).mp held with old | ⟨-, new⟩
            · exact (push_found other).mpr (Or.inl (stacked other (List.mem_cons_of_mem _ old)))
            · exact (push_found other).mpr (Or.inr new)
          have closed' : ∀ other ∈ (push (next vertex) stack found).2,
              other ∉ (push (next vertex) stack found).1 →
              ∀ target ∈ next other, target ∈ (push (next vertex) stack found).2 := by
            intro other held off target edge
            rw [push_stack, not_or, not_and] at off
            by_cases popped : other = vertex
            · subst popped
              exact (push_found target).mpr (Or.inr edge)
            · have old : other ∈ found := by
                rcases (push_found other).mp held with old | new
                · exact old
                · by_contra fresh
                  exact off.2 fresh new
              have offStack : other ∉ vertex :: stack := by
                rw [List.mem_cons, not_or]
                exact ⟨popped, off.1⟩
              exact (push_found target).mpr (Or.inl (closed other old offStack target edge))
          rw [List.length_cons] at enough
          obtain ⟨result, halted, reached⟩ := induction _ _ within' stacked' closed' (by omega)
          refine ⟨result, halted, fun other => (reached other).trans ?_⟩
          constructor
          · rintro ⟨origin, held, path⟩
            rcases (push_found origin).mp held with old | new
            · exact ⟨origin, old, path⟩
            · exact ⟨vertex, here, .head new path⟩
          · rintro ⟨origin, held, path⟩
            exact ⟨origin, (push_found origin).mpr (Or.inl held), path⟩

section Sweep

/-- The vertices in the order of their visits; none where the budget of pops was
too small. -/
def sweep : Nat → List Vertex → List Vertex → Option (List Vertex)
  | _, [], _ => some []
  | 0, _ :: _, _ => none
  | fuel + 1, vertex :: stack, visited =>
      if vertex ∈ visited then sweep fuel stack visited
      else (sweep fuel ((next vertex).reverse ++ stack) (vertex :: visited)).map (vertex :: ·)

/-- How many edges leave the vertices of a finite set that were not visited. -/
def unswept (all visited : List Vertex) : Nat :=
  ((all.filter fun vertex => vertex ∉ visited).map fun vertex => (next vertex).length).sum

theorem unswept_visited {all visited : List Vertex} {vertex : Vertex} (unique : all.Nodup)
    (inside : vertex ∈ all) (fresh : vertex ∉ visited) :
    unswept next all (vertex :: visited) + (next vertex).length = unswept next all visited := by
  have without : all.filter (fun other => other ∉ vertex :: visited) =
      (all.filter fun other => other ∉ visited).erase vertex := filter_visited unique
  have held : vertex ∈ all.filter fun other => other ∉ visited := by
    simp [inside, fresh]
  unfold unswept
  rw [without, Nat.add_comm, ← List.sum_cons, ← List.map_cons (f := fun vertex => (next vertex).length)]
  exact ((List.perm_cons_erase held).symm.map _).sum_nat

theorem sweep_visits {all : List Vertex} (unique : all.Nodup)
    (inside : ∀ vertex ∈ all, ∀ other ∈ next vertex, other ∈ all)
    (fuel : Nat) (stack visited : List Vertex) (within : ∀ vertex ∈ stack, vertex ∈ all)
    (enough : stack.length + unswept next all visited ≤ fuel) :
    ∃ order, sweep next fuel stack visited = some order ∧ order.Nodup ∧
      (∀ vertex ∈ order, vertex ∉ visited) ∧
      ∀ vertex ∈ stack, vertex ∈ visited ∨ vertex ∈ order := by
  induction fuel generalizing stack visited with
  | zero =>
      cases stack with
      | nil => exact ⟨[], by unfold sweep; rfl, List.nodup_nil, nofun, nofun⟩
      | cons vertex stack => simp at enough
  | succ fuel induction =>
      cases stack with
      | nil => exact ⟨[], by unfold sweep; rfl, List.nodup_nil, nofun, nofun⟩
      | cons vertex stack =>
          have here := within vertex List.mem_cons_self
          have others : ∀ other ∈ stack, other ∈ all := fun other member =>
            within other (List.mem_cons_of_mem _ member)
          rw [List.length_cons] at enough
          by_cases old : vertex ∈ visited
          · obtain ⟨order, ended, nodup, fresh, covered⟩ :=
              induction stack visited others (by omega)
            refine ⟨order, by rw [sweep, if_pos old, ended], nodup, fresh, fun other member => ?_⟩
            rcases List.mem_cons.mp member with rfl | later
            · exact Or.inl old
            · exact covered other later
          · have load := unswept_visited next unique here old
            obtain ⟨order, ended, nodup, fresh, covered⟩ :=
              induction ((next vertex).reverse ++ stack) (vertex :: visited)
                (fun other member => by
                  rcases List.mem_append.mp member with pushed | later
                  · exact inside vertex here other (List.mem_reverse.mp pushed)
                  · exact others other later)
                (by rw [List.length_append, List.length_reverse]; omega)
            refine ⟨vertex :: order, by rw [sweep, if_neg old, ended, Option.map_some],
              List.nodup_cons.mpr ⟨fun again => fresh vertex again List.mem_cons_self, nodup⟩,
              fun other member => ?_, fun other member => ?_⟩
            · rcases List.mem_cons.mp member with rfl | later
              · exact old
              · exact fun held => fresh other later (List.mem_cons_of_mem _ held)
            · rcases List.mem_cons.mp member with rfl | later
              · exact Or.inr List.mem_cons_self
              · rcases covered other (List.mem_append_right _ later) with held | visited
                · rcases List.mem_cons.mp held with rfl | before
                  · exact Or.inr List.mem_cons_self
                  · exact Or.inl before
                · exact Or.inr (List.mem_cons_of_mem _ visited)

end Sweep

end Peglib.GraphSearch

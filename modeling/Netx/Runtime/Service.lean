import Netx.Errors.Tree

/-!
# Services

A service is one transport or a `Group` of them. A group's `Serve` and `Shutdown`
call every member at once, wait for all of them and join what they returned.
-/

set_option autoImplicit false

namespace Netx.Runtime

open Errors

/-- A group is meant to list each member once. `Group(t, t)` would call `Serve` and `Shutdown`
on `t` twice, and here a member has one result of each. -/
inductive Service (ι : Type) where
  | single (member : ι)
  | group (members : List ι)

namespace Service

variable {ι : Type}

def members : Service ι → List ι
  | .single member => [member]
  | .group members => members

/-- What the service returns once all its members have. -/
def collect (results : ι → Option (Option Err)) : Service ι → Option (Option Err)
  | .single member => results member
  | .group members => (members.mapM results).map join

variable {results later : ι → Option (Option Err)}

private theorem mapM_eq_some_iff {members : List ι} {errs : List (Option Err)} :
    members.mapM results = some errs ↔ members.map results = errs.map some := by
  induction members generalizing errs with
  | nil => cases errs <;> simp
  | cons member rest ih =>
      rw [List.mapM_cons]
      constructor
      · intro found
        obtain ⟨first, here, remaining⟩ := Option.bind_eq_some_iff.mp found
        obtain ⟨others, rest_found, same⟩ := Option.bind_eq_some_iff.mp remaining
        cases same
        rw [List.map_cons, List.map_cons, here, ih.mp rest_found]
      · intro mapped
        cases errs with
        | nil => cases mapped
        | cons first others =>
            obtain ⟨here, rest_mapped⟩ := List.cons.inj mapped
            rw [here, ih.mpr rest_mapped]
            rfl

variable {err : Option Err} {service : Service ι}

theorem collect_members (collected : service.collect results = some err) :
    ∀ member ∈ service.members, ∃ result, results member = some result := by
  intro member listed
  cases service with
  | single only =>
      obtain rfl := List.mem_singleton.mp listed
      exact ⟨err, collected⟩
  | group members =>
      obtain ⟨errs, found, _⟩ := Option.map_eq_some_iff.mp collected
      have mapped : results member ∈ errs.map some :=
        mapM_eq_some_iff.mp found ▸ List.mem_map_of_mem listed
      obtain ⟨result, _, same⟩ := List.mem_map.mp mapped
      exact ⟨result, same.symm⟩

/-- A service returns nil exactly if all its members do. -/
theorem collect_eq_none_iff (collected : service.collect results = some err) :
    err = none ↔ ∀ member ∈ service.members, results member = some none := by
  cases service with
  | single only =>
      have collected : results only = some err := collected
      simp [members, collected]
  | group members =>
      obtain ⟨errs, found, rfl⟩ := Option.map_eq_some_iff.mp collected
      have mapped := mapM_eq_some_iff.mp found
      rw [join_eq_none]
      constructor
      · intro quiet member listed
        have here : results member ∈ errs.map some := mapped ▸ List.mem_map_of_mem listed
        obtain ⟨result, returned, same⟩ := List.mem_map.mp here
        rw [← same, quiet result returned]
      · intro quiet result returned
        have here : some result ∈ members.map results := mapped ▸ List.mem_map_of_mem returned
        obtain ⟨member, listed, same⟩ := List.mem_map.mp here
        exact Option.some.inj (same.symm.trans (quiet member listed))

/-- Results once returned stay, and so does what the service makes of them. -/
theorem collect_stays
    (stays : ∀ member result, results member = some result → later member = some result)
    (collected : service.collect results = some err) : service.collect later = some err := by
  cases service with
  | single only => exact stays only err collected
  | group members =>
      have returned := collect_members collected
      obtain ⟨errs, found, rfl⟩ := Option.map_eq_some_iff.mp collected
      refine Option.map_eq_some_iff.mpr ⟨errs, mapM_eq_some_iff.mpr ?_, rfl⟩
      rw [← mapM_eq_some_iff.mp found]
      refine List.map_congr_left fun member listed => ?_
      obtain ⟨result, here⟩ := returned member listed
      rw [here, stays member result here]

end Service

end Netx.Runtime

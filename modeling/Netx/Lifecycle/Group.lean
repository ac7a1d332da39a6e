import Netx.Lifecycle.Server

/-!
# Shutting down groups

`Group` runs services together and may be nested. Its `Shutdown` asks every
member at once, waits for all of them and joins their errors in member order,
so the result depends only on what each member returned.
-/

set_option autoImplicit false

namespace Netx.Lifecycle

open Errors

/-- A service as its `Shutdown` sees it: one that returned `err`, or a group. -/
inductive Service where
  | leaf (err : Option Err)
  | group (members : List Service)

mutual

def Service.Shutdown : Service → Option Err
  | .leaf err => err
  | .group members => join (Service.shutdownAll members)

def Service.shutdownAll : List Service → List (Option Err)
  | [] => []
  | member :: members => member.Shutdown :: Service.shutdownAll members

end

mutual

/-- The errors that the members' `Shutdown` returned at any depth, nested groups among them
as members. A service that is no group is its only member. -/
def Service.errors : Service → List Err
  | .leaf err => err.toList
  | .group members => Service.allErrors members

def Service.allErrors : List Service → List Err
  | [] => []
  | member :: members =>
      member.Shutdown.toList ++ member.errors ++ Service.allErrors members

end

private theorem is_of_mem_toList {err : Option Err} {target : Err} (member : target ∈ err.toList) :
    is err target = true := by
  obtain rfl := Option.mem_toList.mp member
  exact Err.is_self target

mutual

/-- A group's error still shows every error returned inside it. -/
theorem Service.is_Shutdown {target : Err} :
    (service : Service) → target ∈ service.errors → is service.Shutdown target = true
  | .leaf err, member => by
      rw [Service.errors] at member
      exact is_of_mem_toList member
  | .group members, member => by
      rw [Service.errors] at member
      rw [Service.Shutdown]
      obtain ⟨err, returned, found⟩ := Service.exists_shutdownAll members member
      exact is_join_of_mem returned found

theorem Service.exists_shutdownAll {target : Err} :
    (members : List Service) → target ∈ Service.allErrors members →
      ∃ err ∈ Service.shutdownAll members, is err target = true
  | member :: members, found => by
      rw [Service.allErrors, List.mem_append, List.mem_append] at found
      rw [Service.shutdownAll]
      rcases found with (own | deeper) | other
      · exact ⟨_, List.mem_cons_self, is_of_mem_toList own⟩
      · exact ⟨_, List.mem_cons_self, Service.is_Shutdown member deeper⟩
      · obtain ⟨err, returned, found⟩ := Service.exists_shutdownAll members other
        exact ⟨err, List.mem_cons_of_mem _ returned, found⟩

end

end Netx.Lifecycle

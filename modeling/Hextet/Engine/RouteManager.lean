/-
# Installed routes

`crates/engine/src/route_manager.rs`.  For each peer the manager remembers the
subnet routes it has installed.  `sync` removes what is no longer wanted, in the
order it was installed, then adds what is missing, in the wanted order; the first
failure ends it with an error, and the memory of the peer is written only at the
end.  Which operating system calls succeed is an argument.
-/

import Hextet.Core.Route

namespace Hextet

/-- A call of `RouteBackend`. -/
inductive RouteCall where
  | add (route : Ipv6Route)
  | remove (route : Ipv6Route)
  deriving DecidableEq

/-- `RouteManager`: the routes installed per peer key. -/
structure RouteManager where
  installed : List (String × List Ipv6Route)

/-- Calls in order up to the first that fails, and whether none failed. -/
def attempt (ok : ℕ → Bool) : List RouteCall → List RouteCall × Bool
  | [] => ([], true)
  | c :: cs =>
      if ok 0 then
        let r := attempt (fun i => ok (i + 1)) cs
        (c :: r.1, r.2)
      else ([c], false)

namespace RouteManager

/-- `RouteManager::new`. -/
def new : RouteManager := ⟨[]⟩

/-- `RouteManager::routes_of`. -/
def routesOf (mgr : RouteManager) (peerKey : String) : List Ipv6Route :=
  (mgr.installed.lookup peerKey).getD []

/-- Write the routes of one peer. -/
def setRoutes (mgr : RouteManager) (peerKey : String) (routes : List Ipv6Route) : RouteManager :=
  ⟨(peerKey, routes) :: mgr.installed.filter fun p => p.1 ≠ peerKey⟩

/-- The routes `sync` adds: the wanted ones that are not kept, each once. -/
def missing (keep desired : List Ipv6Route) : List Ipv6Route :=
  desired.foldl (fun acc r => if r ∈ keep ++ acc then acc else acc ++ [r]) []

/-- `RouteManager::sync`; the calls it made, and whether it returned `Ok`. -/
def sync (mgr : RouteManager) (ok : ℕ → Bool) (peerKey : String) (desired : List Ipv6Route) :
    RouteManager × List RouteCall × Bool :=
  let current := mgr.routesOf peerKey
  let keep := current.filter (· ∈ desired)
  let added := missing keep desired
  let (calls, done) :=
    attempt ok ((current.filter (· ∉ desired)).map .remove ++ added.map .add)
  (mgr.setRoutes peerKey (if done then keep ++ added else current), calls, done)

/-- `RouteManager::remove_peer`: the memory of the peer goes first, then its routes. -/
def removePeer (mgr : RouteManager) (ok : ℕ → Bool) (peerKey : String) :
    RouteManager × List RouteCall × Bool :=
  let (calls, done) := attempt ok ((mgr.routesOf peerKey).map .remove)
  (⟨mgr.installed.filter fun p => p.1 ≠ peerKey⟩, calls, done)

/-- `RouteManager::remove_all`: the map is drained in an order of its own, which is an
argument, and an early return drops the rest of the drained entries. -/
def removeAll (_mgr : RouteManager) (ok : ℕ → Bool) (drained : List (String × List Ipv6Route)) :
    RouteManager × List RouteCall × Bool :=
  let (calls, done) := attempt ok ((drained.flatMap fun p => p.2).map .remove)
  (new, calls, done)

end RouteManager

end Hextet

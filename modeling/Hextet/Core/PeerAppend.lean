/-
# A block after a configuration

A peer block that is written after the text of a configuration adds a peer.  Where the
longer text still loads, **it loads as the old configuration with exactly that peer at
the end** (`load_append_block`), by any TOML reader that reads on: the block is one table
more of the array of peers, the other tables are as before, and the texts of the table
are read back as the name, the key, the endpoints and the routes they were written from.
-/

import Hextet.Core.Bootstrap
import Hextet.Core.PeerBlock
import Hextet.Lib.TomlAppend

namespace Hextet

open Lib

variable {C : Crypto} {ε : Type}

namespace File

/-! ### One table more -/

theorem required_congr {α : Type} {t t' : Toml.Table} {field : String}
    (h : t'.lookup field = t.lookup field) (read : Toml.Value → Option α) :
    required t' field read = required t field read := by
  rw [required, h]
  rfl

/-- The tables of an array, with one more at its end. -/
theorem asTables_append {vs : List Toml.Value} {ts : List Toml.Table}
    (h : asTables (.array vs) = some ts) (table : Toml.Table) :
    asTables (.array (vs ++ [.table table])) = some (ts ++ [table]) := by
  rw [asTables] at h ⊢
  rw [List.mapM_append, h]
  rfl

/-- The peers of a document with one table more. -/
theorem listed_addElement {t : Toml.Table} {ts : List Toml.Table} {table : Toml.Table}
    (hpeers : t.lookup "peers" = none ∨ ∃ vs, t.lookup "peers" = some (.array vs))
    (h : listed t "peers" asTables = .ok ts) :
    listed (Toml.addElement t "peers" (.table table)) "peers" asTables = .ok (ts ++ [table]) := by
  rcases hpeers with hnone | ⟨vs, hvs⟩
  · have hts : ts = [] := by
      simpa [listed, optional, hnone, Except.map] using h
    simp [listed, optional, Toml.lookup_addElement_of_none hnone, asTables, asTable, Except.map,
      hts]
  · cases has : asTables (.array vs) with
    | none => simp [listed, optional, hvs, has, Except.map] at h
    | some ts' =>
        simp only [listed, optional, hvs, has, Except.map, Option.getD_some] at h
        cases h
        simp only [listed, optional, Toml.lookup_addElement_of_array hvs, asTables_append has,
          Except.map, Option.getD_some]

/-- **A document with one table more is read as the configuration with one peer more.** -/
theorem ofTable_addElement {t table : Toml.Table} {raw : RawConfig} {rp : RawPeer}
    (hpeers : t.lookup "peers" = none ∨ ∃ vs, t.lookup "peers" = some (.array vs))
    (h : RawConfig.ofTable t = .ok raw) (hrp : RawPeer.ofTable table = .ok rp) :
    RawConfig.ofTable (Toml.addElement t "peers" (.table table)) =
      .ok { raw with peers := raw.peers ++ [rp] } := by
  obtain ⟨networkTable, hnet, h⟩ := Fallible.bind_eq_ok.1 h
  obtain ⟨network, hnetwork, h⟩ := Fallible.bind_eq_ok.1 h
  obtain ⟨nodeTable, hnod, h⟩ := Fallible.bind_eq_ok.1 h
  obtain ⟨node, hnode, h⟩ := Fallible.bind_eq_ok.1 h
  obtain ⟨ts, hts, h⟩ := Fallible.bind_eq_ok.1 h
  obtain ⟨peers, hps, h⟩ := Fallible.bind_eq_ok.1 h
  cases h
  have hfield : ∀ field, field ≠ "peers" →
      required (Toml.addElement t "peers" (.table table)) field asTable =
        required t field asTable :=
    fun field hne => required_congr (Toml.lookup_addElement_of_ne hne t _) asTable
  have hnet' := (hfield "network" (by decide)).trans hnet
  have hnod' := (hfield "node" (by decide)).trans hnod
  have hps' : (ts ++ [table]).mapM RawPeer.ofTable = .ok (peers ++ [rp]) :=
    (Fallible.mapM_concat_eq_ok hps).2 ⟨rp, hrp, rfl⟩
  simp only [RawConfig.ofTable, hnet', hnod', hnetwork, hnode, listed_addElement hpeers hts, hps',
    Fallible.ok_bind]
  rfl

/-! ### One peer more -/

/-- A peer with a name, a key, endpoints and routes, everything else at its default. -/
def newPeer (name : String) (publicKey : NodePublicKey C) (endpoints : List SocketAddrV6)
    (routes : List Ipv6Route) (addr : NodeAddr) : Peer C where
  name := name
  publicKey := publicKey
  endpoints := endpoints
  addr := addr
  relay := false
  relayPort := defaultRelayPort
  routes := routes
  ddns := none
  keepalive := none

/-- Routes that are loaded from their texts are the routes. -/
theorem loadRoutes_display {name : String} {acc routes rs : List Ipv6Route}
    (h : loadRoutes name acc (routes.map fun r => String.ofList r.display) =
      (.ok rs : Except (ConfigError ε) _)) : rs = acc ++ routes := by
  induction routes generalizing acc with
  | nil =>
      cases h
      rw [List.append_nil]
  | cons r routes ih =>
      rw [List.map_cons, loadRoutes, Ipv6Route.fromStr_display] at h
      cases hmapped : r.pre.isIpv4Mapped with
      | true =>
          rw [hmapped, if_pos rfl] at h
          cases h
      | false =>
          simp only [hmapped, Bool.false_eq_true, if_false] at h
          split_ifs at h
          rw [ih h, List.append_assoc]
          rfl

/-- A block loads as the peer it was written from, if it loads. -/
theorem loadPeer_blockPeer {pre : NetworkPrefix} {name : String} {publicKey : NodePublicKey C}
    {endpoints : List SocketAddrV6} {routes : List Ipv6Route} {p : Peer C}
    (hflow : ∀ e ∈ endpoints, e.flowinfo = 0)
    (h : loadPeer C pre (blockPeer name publicKey endpoints routes) =
      (.ok p : Except (ConfigError ε) _)) :
    ∃ addr, deriveNodeAddr pre publicKey = .ok addr ∧
      p = newPeer name publicKey endpoints routes addr := by
  have hkey : loadKey C name publicKey.toBase64 = (.ok publicKey : Except (ConfigError ε) _) := by
    rw [loadKey, NodePublicKey.fromBase64_toBase64]
    rfl
  have hends : (endpoints.map fun e => String.ofList e.display).mapM (loadEndpoint name) =
      (.ok endpoints : Except (ConfigError ε) _) := by
    have hmap := Fallible.mapM_map (l := endpoints) (h := id)
      (g := fun e => String.ofList e.display)
      (f := (loadEndpoint name : String → Except (ConfigError ε) _)) fun e he => by
        rw [FreshConfig.loadEndpoint_display, ← hflow e he]
        rfl
    rwa [List.map_id] at hmap
  obtain ⟨key, hkey', h⟩ := Fallible.bind_eq_ok.1 h
  obtain ⟨ends, hends', h⟩ := Fallible.bind_eq_ok.1 h
  obtain ⟨rs, hrs, h⟩ := Fallible.bind_eq_ok.1 h
  obtain ⟨ddns, hddns, h⟩ := Fallible.bind_eq_ok.1 h
  obtain ⟨addr, haddr, h⟩ := Fallible.bind_eq_ok.1 h
  obtain ⟨_, -, h⟩ := Fallible.bind_eq_ok.1 h
  obtain rfl : publicKey = key := Except.ok.inj (hkey.symm.trans hkey')
  obtain rfl : endpoints = ends := Except.ok.inj (hends.symm.trans hends')
  obtain rfl : rs = [] ++ routes := loadRoutes_display hrs
  cases hddns
  cases h
  exact ⟨addr, Fallible.mapError_eq_ok.1 haddr, rfl⟩

/-- A longer text that is read has the table of the block more. -/
theorem parse_append_block {parse : List Char → Except ε Toml.Table} (hp : Toml.Appends parse)
    {text : List Char} {t t' : Toml.Table} {name : String} {publicKey : NodePublicKey C}
    {endpoints : List SocketAddrV6} {routes : List Ipv6Route} (h : parse text = .ok t)
    (h' : parse (text ++ renderPeerBlock name publicKey endpoints routes) = .ok t') :
    (t.lookup "peers" = none ∨ ∃ vs, t.lookup "peers" = some (.array vs)) ∧
      t' = Toml.addElement t "peers" (.table (blockTable name publicKey endpoints routes)) := by
  rw [renderPeerBlock_eq_blockDoc] at h'
  exact hp.element text t "peers" (blockLines name publicKey endpoints routes)
    (blockTable name publicKey endpoints routes) t' h (isBare_of_chars (by decide))
    (fun closed => run_blockLines closed name publicKey endpoints routes) h'

/-- The raw structure of a longer text that is read. -/
theorem fromStr_append_block {parse : List Char → Except ε Toml.Table} (hp : Toml.Appends parse)
    {text : List Char} {raw raw' : RawConfig} {name : String} {publicKey : NodePublicKey C}
    {endpoints : List SocketAddrV6} {routes : List Ipv6Route}
    (h : fromStr parse text = .ok raw)
    (h' : fromStr parse (text ++ renderPeerBlock name publicKey endpoints routes) = .ok raw') :
    raw' = { raw with peers := raw.peers ++ [blockPeer name publicKey endpoints routes] } := by
  obtain ⟨t, ht, h⟩ := Fallible.bind_eq_ok.1 h
  obtain ⟨t', ht', h'⟩ := Fallible.bind_eq_ok.1 h'
  rw [Fallible.mapError_eq_ok] at ht ht' h h'
  obtain ⟨hpeers, rfl⟩ := parse_append_block hp ht ht'
  rw [ofTable_addElement hpeers h (ofTable_blockTable name publicKey endpoints routes)] at h'
  exact (Except.ok.inj h').symm

/-- **A longer text that loads is the old configuration with the peer at the end.** -/
theorem load_append_block {parse : List Char → Except ε Toml.Table} (hp : Toml.Appends parse)
    {expand : Bytes 32 → Bytes 5} {text : List Char} {own own' : Option (NodePublicKey C)}
    {f f' : Config C} {name : String} {publicKey : NodePublicKey C} {endpoints : List SocketAddrV6}
    {routes : List Ipv6Route} (hflow : ∀ e ∈ endpoints, e.flowinfo = 0)
    (h : load C (fromStr parse) expand text own = .ok f)
    (h' : load C (fromStr parse) expand
      (text ++ renderPeerBlock name publicKey endpoints routes) own' = .ok f') :
    ∃ addr, deriveNodeAddr f.pre publicKey = .ok addr ∧
      f' = { f with peers := f.peers ++ [newPeer name publicKey endpoints routes addr] } := by
  obtain ⟨raw, hraw, h⟩ := Fallible.bind_eq_ok.1 h
  obtain ⟨raw', hraw', h'⟩ := Fallible.bind_eq_ok.1 h'
  rw [Fallible.mapError_eq_ok] at hraw hraw'
  obtain rfl := fromStr_append_block hp hraw hraw'
  obtain ⟨_, -, h⟩ := Fallible.bind_eq_ok.1 h
  obtain ⟨_, -, h'⟩ := Fallible.bind_eq_ok.1 h'
  obtain ⟨networkKey, hkey, h⟩ := Fallible.bind_eq_ok.1 h
  obtain ⟨networkKey', hkey', h'⟩ := Fallible.bind_eq_ok.1 h'
  obtain rfl : networkKey = networkKey' := Except.ok.inj (hkey.symm.trans hkey')
  obtain ⟨peers, hpeers, h⟩ := Fallible.bind_eq_ok.1 h
  obtain ⟨peers', hpeers', h'⟩ := Fallible.bind_eq_ok.1 h'
  obtain ⟨_, -, h⟩ := Fallible.bind_eq_ok.1 h
  obtain ⟨_, -, h'⟩ := Fallible.bind_eq_ok.1 h'
  obtain ⟨relayAllow, hallow, h⟩ := Fallible.bind_eq_ok.1 h
  obtain ⟨relayAllow', hallow', h'⟩ := Fallible.bind_eq_ok.1 h'
  obtain rfl : relayAllow = relayAllow' := Except.ok.inj (hallow.symm.trans hallow')
  obtain ⟨adminKeys, hadmin, h⟩ := Fallible.bind_eq_ok.1 h
  obtain ⟨adminKeys', hadmin', h'⟩ := Fallible.bind_eq_ok.1 h'
  obtain rfl : adminKeys = adminKeys' := Except.ok.inj (hadmin.symm.trans hadmin')
  obtain ⟨_, -, h⟩ := Fallible.bind_eq_ok.1 h
  obtain ⟨_, -, h'⟩ := Fallible.bind_eq_ok.1 h'
  obtain ⟨_, -, h⟩ := Fallible.bind_eq_ok.1 h
  obtain ⟨_, -, h'⟩ := Fallible.bind_eq_ok.1 h'
  cases h
  cases h'
  obtain ⟨p, hpeer, rfl⟩ := (Fallible.mapM_concat_eq_ok hpeers).1 hpeers'
  obtain ⟨addr, haddr, rfl⟩ := loadPeer_blockPeer hflow hpeer
  exact ⟨addr, haddr, rfl⟩

end File

end Hextet

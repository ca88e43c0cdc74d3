/-
# A peer block

`render_peer_block` of `crates/core/src/config.rs` with everything it can write: the name,
the key, and the endpoints and routes where there are any.  The block is a document of the
TOML fragment (`renderPeerBlock_eq_blockDoc`) that says one table of the array of peers
(`run_blockDoc`), and that table is read as the raw peer with the texts that were written
(`ofTable_blockTable`).  A block without routes is the one that a new configuration has
for each bootstrap peer (`peerDoc_eq`).
-/

import Hextet.Core.ConfigToml
import Hextet.Core.RouteText

namespace Hextet

open Lib

variable {C : Crypto} {ε : Type}

namespace File

/-! ### The block as a document -/

/-- A line with a list of texts, left out when there is none. -/
def listDoc (key : String) (items : List (List Char)) : List Toml.Line :=
  if items = [] then [] else [.pair key (.strings items)]

theorem text_listDoc (key : String) (items : List (List Char)) :
    Toml.text (listDoc key items) = listLine key items := by
  by_cases h : items = []
  · rw [listDoc, listLine, if_pos h, if_pos h]
    rfl
  · simp only [listDoc, listLine, if_neg h, Toml.text_cons, Toml.text_nil, Toml.Line.text,
      Toml.Literal.text, stringsText_eq h, List.append_assoc, List.cons_append, List.nil_append]

/-- The lines of the table of a block. -/
def blockLines (name : String) (publicKey : NodePublicKey C) (endpoints : List SocketAddrV6)
    (routes : List Ipv6Route) : List Toml.Line :=
  [.pair "name" (.string (escape name.toList)),
    .pair "public_key" (.string (Base64.encode publicKey.bytes.1))] ++
    listDoc "endpoints" (endpoints.map SocketAddrV6.display) ++
    listDoc "routes" (routes.map Ipv6Route.display)

/-- A block: an empty line, the header and the table. -/
def blockDoc (name : String) (publicKey : NodePublicKey C) (endpoints : List SocketAddrV6)
    (routes : List Ipv6Route) : List Toml.Line :=
  .blank :: .header (.element "peers") :: blockLines name publicKey endpoints routes

/-- **A block is a document.** -/
theorem renderPeerBlock_eq_blockDoc (name : String) (publicKey : NodePublicKey C)
    (endpoints : List SocketAddrV6) (routes : List Ipv6Route) :
    renderPeerBlock name publicKey endpoints routes =
      Toml.text (blockDoc name publicKey endpoints routes) := by
  have hbase : publicKey.toBase64.toList = Base64.encode publicKey.bytes.1 := String.toList_ofList
  rw [renderPeerBlock, blockDoc, blockLines, ← text_listDoc, ← text_listDoc, hbase]
  simp only [quoted, tomlBasicString, Toml.text_cons, Toml.text_append, Toml.Line.text,
    Toml.Header.text, Toml.Literal.text, List.append_assoc, List.cons_append, List.nil_append]

/-! ### What the block says -/

/-- A list of texts under a key, left out when there is none. -/
def listField (key : String) (items : List (List Char)) : Toml.Table :=
  if items = [] then [] else [(key, .array (items.map fun i => .string (String.ofList i)))]

/-- The table of a block. -/
def blockTable (name : String) (publicKey : NodePublicKey C) (endpoints : List SocketAddrV6)
    (routes : List Ipv6Route) : Toml.Table :=
  [("name", .string name), ("public_key", .string publicKey.toBase64)] ++
    listField "endpoints" (endpoints.map SocketAddrV6.display) ++
    listField "routes" (routes.map Ipv6Route.display)

/-- The raw peer of a block: the texts that were written. -/
def blockPeer (name : String) (publicKey : NodePublicKey C) (endpoints : List SocketAddrV6)
    (routes : List Ipv6Route) : RawPeer where
  name := name
  publicKey := publicKey.toBase64
  endpoints := endpoints.map fun e => String.ofList e.display
  relay := none
  relayPort := none
  routes := routes.map fun r => String.ofList r.display
  ddns := none
  keepalive := none

theorem isPlain_addr (a : Ipv6Addr) : a.display.all Toml.isPlain = true := by
  have hdigit : ∀ d : Fin 16, Toml.isPlain (Nat.digitChar d) = true := by decide
  rw [List.all_eq_true]
  intro c hc
  rcases a.mem_display hc with (rfl | ⟨d, hd, rfl⟩) | ⟨-, rfl⟩
  · decide
  · exact hdigit ⟨d, hd⟩
  · decide

theorem isPlain_route (r : Ipv6Route) : r.display.all Toml.isPlain = true := by
  rw [Ipv6Route.display, List.all_append, List.all_cons, isPlain_addr,
    isPlain_toDigits (by omega) (by omega)]
  decide

section Run

open Toml.Builder

/-- A list of plain texts under a key that is not there yet. -/
theorem run_listDoc {b : Toml.Builder} {h : Toml.Header} {t : Toml.Table} {key : String}
    {items : List (List Char)} (hkey : Toml.isBare key = true) (hb : b.current = some (h, t))
    (hnew : t.lookup key = none) (hplain : ∀ i ∈ items, i.all Toml.isPlain = true) :
    b.run (listDoc key items) = some ⟨b.closed, some (h, t ++ listField key items)⟩ := by
  by_cases hnil : items = []
  · rw [listDoc, listField, if_pos hnil, if_pos hnil, List.append_nil, ← hb]
    rfl
  · have hmap : ∀ l : List (List Char), (∀ i ∈ l, i.all Toml.isPlain = true) →
        l.mapM Toml.decode = some (l.map String.ofList) := by
      intro l
      induction l with
      | nil => exact fun _ => rfl
      | cons i l ih =>
          intro hl
          simp [Toml.decode_plain (hl i List.mem_cons_self),
            ih fun x hx => hl x (List.mem_cons_of_mem _ hx)]
    have hentry : (Toml.Line.pair key (.strings items)).entry =
        some (.pair key (.array (items.map fun i => .string (String.ofList i)))) := by
      rw [Toml.Line.entry, if_pos hkey, Toml.Literal.value, hmap items hplain]
      simp
    rw [listDoc, listField, if_neg hnil, if_neg hnil, run_line hentry (step_pair hb hnew)]
    rfl

/-- The table of a block is built from its lines. -/
theorem run_blockLines (closed : Toml.Table) (name : String) (publicKey : NodePublicKey C)
    (endpoints : List SocketAddrV6) (routes : List Ipv6Route) :
    run ⟨closed, some (.element "peers", [])⟩ (blockLines name publicKey endpoints routes) =
      some ⟨closed, some (.element "peers", blockTable name publicKey endpoints routes)⟩ := by
  have hn := Toml.entry_string (show Toml.isBare "name" = true from isBare_of_chars (by decide))
    (decode_escape name)
  have hk := Toml.entry_string
    (show Toml.isBare "public_key" = true from isBare_of_chars (by decide))
    (decode_toBase64 publicKey.bytes.1)
  have hends : ∀ i ∈ endpoints.map SocketAddrV6.display, i.all Toml.isPlain = true := by
    intro i hi
    obtain ⟨e, -, rfl⟩ := List.mem_map.1 hi
    exact isPlain_display e
  have hroutes : ∀ i ∈ routes.map Ipv6Route.display, i.all Toml.isPlain = true := by
    intro i hi
    obtain ⟨r, -, rfl⟩ := List.mem_map.1 hi
    exact isPlain_route r
  have hroutesNew :
      ([("name", Toml.Value.string name), ("public_key", .string publicKey.toBase64)] ++
      listField "endpoints" (endpoints.map SocketAddrV6.display)).lookup "routes" = none := by
    unfold listField
    split_ifs <;> simp
  simp only [blockLines, List.cons_append, List.nil_append]
  rw [run_line hn (step_pair rfl rfl), run_line hk (step_pair rfl (by simp)),
    run_lines (run_listDoc (isBare_of_chars (by decide)) rfl (by simp) hends)]
  rw [run_listDoc (isBare_of_chars (by decide)) rfl hroutesNew hroutes]
  rfl

/-- **A block is a table more of the array of peers.** -/
theorem run_blockDoc {b : Toml.Builder}
    (hb : b.flush.lookup "peers" = none ∨ ∃ vs, b.flush.lookup "peers" = some (.array vs))
    (name : String) (publicKey : NodePublicKey C) (endpoints : List SocketAddrV6)
    (routes : List Ipv6Route) :
    b.run (blockDoc name publicKey endpoints routes) =
      some ⟨b.flush, some (.element "peers", blockTable name publicKey endpoints routes)⟩ := by
  have hpeers := Toml.entry_header
    (show Toml.isBare (Toml.Header.element "peers").name = true from isBare_of_chars (by decide))
  rw [blockDoc, run_blank, run_line hpeers (step_element hb), run_blockLines]

end Run

theorem mapM_asString (items : List (List Char)) :
    (items.map fun i => Toml.Value.string (String.ofList i)).mapM asString =
      some (items.map String.ofList) := by
  induction items with
  | nil => rfl
  | cons i items ih => simp [asString, ih]

/-- **The table of a block is read as the raw peer.** -/
theorem ofTable_blockTable (name : String) (publicKey : NodePublicKey C)
    (endpoints : List SocketAddrV6) (routes : List Ipv6Route) :
    RawPeer.ofTable (blockTable name publicKey endpoints routes) =
      .ok (blockPeer name publicKey endpoints routes) := by
  have hends := mapM_asString (endpoints.map SocketAddrV6.display)
  have hroutes := mapM_asString (routes.map Ipv6Route.display)
  rw [List.map_map] at hends hroutes
  by_cases he : endpoints = []
  · by_cases hr : routes = []
    · simp [RawPeer.ofTable, blockTable, listField, he, hr, required, optional, listed, asString,
        List.lookup_cons, blockPeer, Except.map]
    · simp [RawPeer.ofTable, blockTable, listField, he, hr, required, optional, listed, asString,
        asStrings, List.lookup_cons, blockPeer, Except.map, hroutes]
  · by_cases hr : routes = []
    · simp [RawPeer.ofTable, blockTable, listField, he, hr, required, optional, listed, asString,
        asStrings, List.lookup_cons, blockPeer, Except.map, hends]
    · simp [RawPeer.ofTable, blockTable, listField, he, hr, required, optional, listed, asString,
        asStrings, List.lookup_cons, blockPeer, Except.map, hends, hroutes]

/-! ### A block without routes -/

theorem peerDoc_eq (name : String) (publicKey : NodePublicKey C) (endpoints : List SocketAddrV6) :
    peerDoc name publicKey endpoints = blockDoc name publicKey endpoints [] := by
  rw [peerDoc, blockDoc, blockLines, listDoc, listDoc, List.map_nil, if_pos rfl, List.append_nil]
  simp only [List.map_eq_nil_iff, List.cons_append, List.nil_append]

theorem peerTable_eq (name : String) (publicKey : NodePublicKey C)
    (endpoints : List SocketAddrV6) :
    peerTable name publicKey endpoints = blockTable name publicKey endpoints [] := by
  rw [peerTable, blockTable, listField, listField, List.map_nil, if_pos rfl, List.append_nil,
    List.map_map]
  simp only [List.map_eq_nil_iff, Function.comp_def]

/-- A peer block without routes is a document. -/
theorem renderPeerBlock_eq (name : String) (publicKey : NodePublicKey C)
    (endpoints : List SocketAddrV6) :
    renderPeerBlock name publicKey endpoints [] = Toml.text (peerDoc name publicKey endpoints) := by
  rw [renderPeerBlock_eq_blockDoc, peerDoc_eq]

/-- A peer block without routes is a table of the array of peers. -/
theorem run_peerDoc {b : Toml.Builder}
    (hb : b.flush.lookup "peers" = none ∨ ∃ vs, b.flush.lookup "peers" = some (.array vs))
    (peer : String) (publicKey : NodePublicKey C) (endpoints : List SocketAddrV6) :
    b.run (peerDoc peer publicKey endpoints) =
      some ⟨b.flush, some (.element "peers", peerTable peer publicKey endpoints)⟩ := by
  rw [peerDoc_eq, peerTable_eq, run_blockDoc hb]

end File

end Hextet

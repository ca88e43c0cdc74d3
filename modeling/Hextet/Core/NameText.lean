/-
# The name in a peer block

`toml_basic_string` and `render_peer_block` of `crates/core/src/config.rs`.  The text of a name
is one basic string of the TOML grammar, and the name is its value
(`isBasicString_tomlBasicString`).  Every other character of a block comes from elsewhere, so
a name changes one value of the table and nothing else of what a reader finds
(`name_stays_a_name`).
-/

import Hextet.Core.PeerAppend
import Hextet.Core.PlainCrypto
import Hextet.Lib.TomlGrammar

namespace Hextet

open Lib

variable {C : Crypto} {ε : Type}

namespace File

/-! ### The text of a name -/

theorem basicChars_escape (s : List Char) : Toml.BasicChars (escape s) s := by
  obtain ⟨body, heq, hbody⟩ := Toml.exists_basicChars (readFrom_escape s [])
  rw [List.append_cancel_right heq]
  exact hbody

/-- **The text of a name is a basic string, and the name is its value.** -/
theorem isBasicString_tomlBasicString (s : String) :
    Toml.IsBasicString (tomlBasicString s) s.toList :=
  ⟨escape s.toList, rfl, basicChars_escape s.toList⟩

theorem isControl_of_mem_upperHex {n : ℕ} (h : n < 0xA0) :
    (upperHex n).all (fun c => !isControl c) = true := by
  have hall : ∀ n : Fin 0xA0, (upperHex n).all (fun c => !isControl c) = true := by
    decide +kernel
  exact hall ⟨n, h⟩

/-- No control character is written, not even an escaped one. -/
theorem isControl_of_mem_escape {s : List Char} {c : Char} (hc : c ∈ escape s) :
    isControl c = false := by
  obtain ⟨d, -, hc⟩ := List.mem_flatMap.1 hc
  have hall : (escapeChar d).all (fun c => !isControl c) = true := by
    unfold escapeChar
    split_ifs with _ _ _ _ _ hcontrol
    · decide
    · decide
    · decide
    · decide
    · decide
    · have hlt : d.toNat < 0xA0 := by
        simp only [isControl, Bool.or_eq_true, Bool.and_eq_true, decide_eq_true_eq] at hcontrol
        omega
      rw [List.all_cons, List.all_cons, isControl_of_mem_upperHex hlt]
      decide
    · simpa using hcontrol
  simpa using List.all_eq_true.1 hall c hc

/-! ### The block around it -/

/-- The lines of a block after the name. -/
def blockRest (publicKey : NodePublicKey C) (endpoints : List SocketAddrV6)
    (routes : List Ipv6Route) : List Char :=
  quoted "public_key" publicKey.toBase64.toList ++
    listLine "endpoints" (endpoints.map SocketAddrV6.display) ++
    listLine "routes" (routes.map Ipv6Route.display)

variable (name : String) (publicKey : NodePublicKey C) (endpoints : List SocketAddrV6)
  (routes : List Ipv6Route)

/-- The name stands in one place of the block. -/
theorem renderPeerBlock_eq_name :
    renderPeerBlock name publicKey endpoints routes =
      "\n[[peers]]\nname = ".toList ++ tomlBasicString name ++
        '\n' :: blockRest publicKey endpoints routes := by
  have hstart : "\n[[peers]]\nname = ".toList =
      '\n' :: '[' :: '[' :: ("peers".toList ++ [']', ']', '\n']) ++ "name".toList ++
        [' ', '=', ' '] := by decide
  rw [renderPeerBlock, blockRest, hstart]
  simp only [List.append_assoc, List.cons_append, List.nil_append]

/-- A document with a block after it is read as its tables and that of the block. -/
theorem parse_document_block {parse : List Char → Except ε Toml.Table} (hp : Toml.Reads parse)
    {doc : List Toml.Line} {b : Toml.Builder} (hb : Toml.build doc = some b)
    (hpeers : b.flush.lookup "peers" = none ∨ ∃ vs, b.flush.lookup "peers" = some (.array vs)) :
    parse (Toml.text doc ++ renderPeerBlock name publicKey endpoints routes) =
      .ok (Toml.addElement b.flush "peers"
        (.table (blockTable name publicKey endpoints routes))) := by
  rw [renderPeerBlock_eq_blockDoc, ← Toml.text_append]
  have hbuild : Toml.build (doc ++ blockDoc name publicKey endpoints routes) =
      some ⟨b.flush, some (.element "peers", blockTable name publicKey endpoints routes)⟩ := by
    rw [Toml.build] at hb ⊢
    rw [Toml.Builder.run_lines hb, run_blockDoc hpeers]
  exact hp.document _ _ hbuild

/-! ### What a name can do -/

/-- **A name stays a name.**  The text of a name is one basic string with the name as its
value: whatever follows it, no other basic string starts there, and between its quotes no
character is a control character and none that is not escaped is a quote or a backslash.

In a peer block the name is written in one place, at the end of a line, where every string of
TOML has the name as its value.  So the block is a table more of the array of peers, after
every document of the fragment and after every text that a reader goes on from; another name
has another value at `name` in that table, and nothing else. -/
theorem name_stays_a_name :
    (Toml.IsBasicString (tomlBasicString name) name.toList ∧
      (∀ t v rest r, Toml.IsBasicString t v → tomlBasicString name ++ rest = t ++ r →
        t = tomlBasicString name ∧ v = name.toList ∧ r = rest) ∧
      ∃ body, tomlBasicString name = '"' :: (body ++ ['"']) ∧
        (∀ c ∈ body, isControl c = false) ∧ '"' ∉ Toml.bare body ∧ '\\' ∉ Toml.bare body) ∧
    (∃ start body rest, tomlBasicString name = '"' :: (body ++ ['"']) ∧
      renderPeerBlock name publicKey endpoints routes =
        start ++ '"' :: (body ++ '"' :: '\n' :: rest) ∧
      (∀ other, renderPeerBlock other publicKey endpoints routes =
        start ++ tomlBasicString other ++ '\n' :: rest) ∧
      ∀ more v, Toml.StringAt (body ++ '"' :: '\n' :: (rest ++ more)) v ↔ v = name.toList) ∧
    (∀ {ε : Type} (parse : List Char → Except ε Toml.Table),
      (Toml.Reads parse → ∀ doc b, Toml.build doc = some b →
        (b.flush.lookup "peers" = none ∨ ∃ vs, b.flush.lookup "peers" = some (.array vs)) →
        parse (Toml.text doc ++ renderPeerBlock name publicKey endpoints routes) =
          .ok (Toml.addElement b.flush "peers"
            (.table (blockTable name publicKey endpoints routes)))) ∧
      (Toml.Appends parse → ∀ text t t', parse text = .ok t →
        parse (text ++ renderPeerBlock name publicKey endpoints routes) = .ok t' →
        t' = Toml.addElement t "peers"
          (.table (blockTable name publicKey endpoints routes)))) ∧
    ∀ other, blockTable other publicKey endpoints routes =
      ("name", .string other) :: (blockTable name publicKey endpoints routes).tail := by
  have hstring := isBasicString_tomlBasicString name
  have hbody := basicChars_escape name.toList
  have hbare : ∀ c ∈ Toml.bare (escape name.toList), c ≠ '"' ∧ c ≠ '\\' := fun c hc =>
    Toml.ne_of_isPlain (Toml.isPlain_of_mem_bare hbody c hc)
  refine ⟨⟨hstring, ?_, ?_⟩, ?_, ?_, ?_⟩
  · intro t v rest r h heq
    exact hstring.unique h heq
  · refine ⟨escape name.toList, rfl, fun c hc => isControl_of_mem_escape hc, ?_, ?_⟩
    · exact fun h => (hbare _ h).1 rfl
    · exact fun h => (hbare _ h).2 rfl
  · refine ⟨"\n[[peers]]\nname = ".toList, escape name.toList,
      blockRest publicKey endpoints routes, rfl, ?_, ?_, ?_⟩
    · rw [renderPeerBlock_eq_name, tomlBasicString]
      simp only [List.append_assoc, List.cons_append, List.nil_append]
    · exact fun other => renderPeerBlock_eq_name other publicKey endpoints routes
    · exact fun more v => hbody.stringAt_iff
  · intro ε parse
    constructor
    · intro hp doc b hb hpeers
      exact parse_document_block name publicKey endpoints routes hp hb hpeers
    · intro hp text t t' h h'
      exact (parse_append_block hp h h').2
  · exact fun other => rfl

/-- A name with a quote, a backslash and a tab, in a file of its own. -/
theorem name_stays_a_name_weird :
    let block := renderPeerBlock "na\"s\\path\tx" (plainKey 1 0) [] []
    let table := [("name", Toml.Value.string "na\"s\\path\tx"),
      ("public_key", .string (plainKey 1 0).toBase64)]
    Toml.readLines block = .ok [("peers", .array [.table table])] ∧
      [("peers", .array [.table table])] = Toml.addElement [] "peers" (.table table) := by
  have h := (name_stays_a_name "na\"s\\path\tx" (plainKey 1 0) [] []).2.2.1 Toml.readLines
  have hread := h.1 Toml.reads_readLines [] ⟨[], none⟩ rfl (Or.inl rfl)
  exact ⟨hread, h.2 Toml.appends_readLines [] [] _ rfl hread⟩

end File

end Hextet

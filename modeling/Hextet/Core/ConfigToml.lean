/-
# The configuration file as TOML

`crates/core/src/config.rs`: how the raw structure is read from the tables of a
TOML document (the derived `Deserialize`), and what the program writes,
`Config::render_template` and `render_peer_block`.

A peer's name is escaped (`toml_basic_string`), and an escaped text is read back
(`readFrom_escape`).  The network name and the two paths of the template are
written between quotes as they are.
-/

import Hextet.Core.ConfigFile
import Hextet.Lib.Toml

namespace Hextet

open Lib

variable {C : Crypto} {ε : Type}

namespace File

/-! ### The derived `Deserialize` -/

/-- An error of the derived `Deserialize`: a field that is missing, or has another
type. -/
inductive DeError where
  | missingField (field : String)
  | invalidValue (field : String)
  deriving DecidableEq

/-- A field without default. -/
def required {α : Type} (t : Toml.Table) (field : String) (read : Toml.Value → Option α) :
    Except DeError α :=
  match t.lookup field with
  | none => .error (.missingField field)
  | some v =>
      match read v with
      | none => .error (.invalidValue field)
      | some a => .ok a

/-- A field of type `Option`. -/
def optional {α : Type} (t : Toml.Table) (field : String) (read : Toml.Value → Option α) :
    Except DeError (Option α) :=
  match t.lookup field with
  | none => .ok none
  | some v =>
      match read v with
      | none => .error (.invalidValue field)
      | some a => .ok (some a)

/-- A list that is empty by default. -/
def listed {α : Type} (t : Toml.Table) (field : String) (read : Toml.Value → Option (List α)) :
    Except DeError (List α) :=
  (optional t field read).map (·.getD [])

/-- A `String`. -/
def asString : Toml.Value → Option String
  | .string s => some s
  | _ => none

/-- A `bool`. -/
def asBool : Toml.Value → Option Bool
  | .boolean b => some b
  | _ => none

/-- An unsigned integer below a bound. -/
def asUnsigned (bound : ℕ) : Toml.Value → Option ℕ
  | .integer n => if 0 ≤ n ∧ n < bound then some n.toNat else none
  | _ => none

/-- A `u16`. -/
def asU16 (v : Toml.Value) : Option UInt16 := (asUnsigned (2 ^ 16) v).map UInt16.ofNat

/-- A `u32`. -/
def asU32 (v : Toml.Value) : Option UInt32 := (asUnsigned (2 ^ 32) v).map UInt32.ofNat

/-- A `PathBuf`. -/
def asPath (v : Toml.Value) : Option PathBuf := (asString v).map fun s => .ofText s.toList

/-- A `Vec<String>`. -/
def asStrings : Toml.Value → Option (List String)
  | .array vs => vs.mapM asString
  | _ => none

/-- An `Ipv6Addr`. -/
def asIpv6Addr (v : Toml.Value) : Option Ipv6Addr :=
  (asString v).bind fun s => parseIpv6Addr s.toList

/-- A `SocketAddr`. -/
def asSocketAddr (v : Toml.Value) : Option SocketAddr :=
  (asString v).bind fun s => parseSocketAddr s.toList

/-- A `DdnsProvider`. -/
def asProvider (v : Toml.Value) : Option DdnsProvider :=
  (asString v).bind fun s =>
    if s = "webhook" then some .webhook else if s = "cloudflare" then some .cloudflare else none

/-- `RawNetwork`. -/
def RawNetwork.ofTable (t : Toml.Table) : Except DeError RawNetwork := do
  let name ← required t "name" asString
  let key ← required t "key" asString
  return { name := name, key := key }

/-- `RawNode`. -/
def RawNode.ofTable (t : Toml.Table) : Except DeError RawNode := do
  let keyFile ← required t "key_file" asPath
  let listenPort ← optional t "listen_port" asU16
  let mtu ← optional t "mtu" asU32
  let interface ← optional t "interface" asString
  let probePort ← optional t "probe_port" asU16
  let stateDir ← optional t "state_dir" asPath
  let keepalive ← optional t "keepalive" asU16
  let lanDiscovery ← optional t "lan_discovery" asBool
  let lanPort ← optional t "lan_port" asU16
  let relay ← optional t "relay" asBool
  let relayPort ← optional t "relay_port" asU16
  let relayAllow ← listed t "relay_allow" asStrings
  let gossipPort ← optional t "gossip_port" asU16
  let gossip ← optional t "gossip" asBool
  let adminKeys ← listed t "admin_keys" asStrings
  let dht ← optional t "dht" asBool
  let httpAddr ← optional t "http_addr" asIpv6Addr
  let httpPort ← optional t "http_port" asU16
  let webDir ← optional t "web_dir" asPath
  let ddns ← optional t "ddns" asBool
  let ddnsFqdn ← optional t "ddns_fqdn" asString
  let ddnsProvider ← optional t "ddns_provider" asProvider
  let ddnsWebhookUrl ← optional t "ddns_webhook_url" asString
  let ddnsSecret ← optional t "ddns_secret" asString
  let ddnsZone ← optional t "ddns_zone" asString
  let ddnsResolver ← optional t "ddns_resolver" asSocketAddr
  return {
    keyFile := keyFile, listenPort := listenPort, mtu := mtu, interface := interface,
    probePort := probePort, stateDir := stateDir, keepalive := keepalive,
    lanDiscovery := lanDiscovery, lanPort := lanPort, relay := relay, relayPort := relayPort,
    relayAllow := relayAllow, gossipPort := gossipPort, gossip := gossip, adminKeys := adminKeys,
    dht := dht, httpAddr := httpAddr, httpPort := httpPort, webDir := webDir, ddns := ddns,
    ddnsFqdn := ddnsFqdn, ddnsProvider := ddnsProvider, ddnsWebhookUrl := ddnsWebhookUrl,
    ddnsSecret := ddnsSecret, ddnsZone := ddnsZone, ddnsResolver := ddnsResolver }

/-- `RawPeer`. -/
def RawPeer.ofTable (t : Toml.Table) : Except DeError RawPeer := do
  let name ← required t "name" asString
  let publicKey ← required t "public_key" asString
  let endpoints ← listed t "endpoints" asStrings
  let relay ← optional t "relay" asBool
  let relayPort ← optional t "relay_port" asU16
  let routes ← listed t "routes" asStrings
  let ddns ← optional t "ddns" asString
  let keepalive ← optional t "keepalive" asU16
  return {
    name := name, publicKey := publicKey, endpoints := endpoints, relay := relay,
    relayPort := relayPort, routes := routes, ddns := ddns, keepalive := keepalive }

/-- A table of the document. -/
def asTable : Toml.Value → Option Toml.Table
  | .table t => some t
  | _ => none

/-- An array of tables. -/
def asTables : Toml.Value → Option (List Toml.Table)
  | .array vs => vs.mapM asTable
  | _ => none

/-- `RawConfig`. -/
def RawConfig.ofTable (t : Toml.Table) : Except DeError RawConfig := do
  let network ← RawNetwork.ofTable (← required t "network" asTable)
  let node ← RawNode.ofTable (← required t "node" asTable)
  let peers ← (← listed t "peers" asTables).mapM RawPeer.ofTable
  return { network := network, node := node, peers := peers }

/-- `toml::from_str`: the error of the reader, or of `Deserialize`. -/
def fromStr (parse : List Char → Except ε Toml.Table) (text : List Char) :
    Except (ε ⊕ DeError) RawConfig := do
  let t ← (parse text).mapError .inl
  (RawConfig.ofTable t).mapError .inr

/-! ### What the program writes -/

/-- `char::is_control`. -/
def isControl (c : Char) : Bool := c.toNat < 0x20 || (0x7F ≤ c.toNat && c.toNat < 0xA0)

/-- `{:04X}`. -/
def upperHex (n : ℕ) : List Char :=
  let ds := (Nat.toDigits 16 n).map Char.toUpper
  List.replicate (4 - ds.length) '0' ++ ds

/-- `toml_basic_string`, one character. -/
def escapeChar (c : Char) : List Char :=
  if c = '"' then ['\\', '"'] else if c = '\\' then ['\\', '\\']
  else if c = '\n' then ['\\', 'n'] else if c = '\r' then ['\\', 'r']
  else if c = '\t' then ['\\', 't']
  else if isControl c then '\\' :: 'u' :: upperHex c.toNat else [c]

/-- `toml_basic_string`, between the quotes. -/
def escape (s : List Char) : List Char := s.flatMap escapeChar

/-- `toml_basic_string`. -/
def tomlBasicString (s : String) : List Char := '"' :: (escape s.toList ++ ['"'])

/-- Items in quotes with `, ` between, as `join` puts them together. -/
def quotedList (items : List (List Char)) : List Char :=
  [',', ' '].intercalate (items.map fun i => '"' :: (i ++ ['"']))

/-- A line `key = "value"`. -/
def quoted (key : String) (value : List Char) : List Char :=
  key.toList ++ ' ' :: '=' :: ' ' :: '"' :: (value ++ ['"', '\n'])

/-- A line `key = ["item", "item"]`, left out when there is no item. -/
def listLine (key : String) (items : List (List Char)) : List Char :=
  if items = [] then []
  else key.toList ++ ' ' :: '=' :: ' ' :: '[' :: (quotedList items ++ [']', '\n'])

/-- `render_peer_block`. -/
def renderPeerBlock (name : String) (publicKey : NodePublicKey C) (endpoints : List SocketAddrV6)
    (routes : List Ipv6Route) : List Char :=
  '\n' :: '[' :: '[' :: ("peers".toList ++ [']', ']', '\n']) ++
    "name".toList ++ ' ' :: '=' :: ' ' :: (tomlBasicString name ++ ['\n']) ++
    quoted "public_key" publicKey.toBase64.toList ++
    listLine "endpoints" (endpoints.map SocketAddrV6.display) ++
    listLine "routes" (routes.map Ipv6Route.display)

/-- Comment lines. -/
def comments (ls : List String) : List Char := ls.flatMap fun l => '#' :: (l.toList ++ ['\n'])

/-- The comments at the top of the template. -/
def headLines : List String :=
  [" hextet 节点配置（v1，静态模式）",
   " 文档：docs/guides/quickstart.md"]

/-- The comment on the network key. -/
def keyLines : List String := [" 网络密钥：同一网络的所有节点必须一致。妥善保管。"]

/-- The comments on the settings that the template leaves at their defaults, with
the defaults written out. -/
def optionLines : List String :=
  [" mtu = 1400",
   " interface = \"hextet0\"",
   " probe_port = 4194",
   " keepalive = 25     # WG 持久 keepalive 秒数（0 = 关闭，移动端按需连接省电；默认 25）",
   " lan_discovery = true   # 同 LAN 内自动发现同网节点（组播 ff02::4193，端口 4195）",
   " lan_port = 4195",
   " relay = false        # 让本节点为网络里其他节点提供中继（默认关，见 docs/guides/relay.md）",
   " relay_port = 4196",
   " relay_allow = []     # 只允许这些公钥用本节点中继；空 = 任何网络成员",
   " gossip_port = 4197   # 隧道内 gossip 端口（见 docs/protocol/gossip.md）",
   " gossip = true        # 隧道内 gossip（端点广播 + peer 转介 + 成员；默认开）",
   " admin_keys = []      # 能签发 gossip 准入/吊销的 admin 公钥；空 = 任何成员都能签发（默认）",
   " dht = true           # DHT 会合（默认开；控制面弱依赖 IPv4 出站，见 docs/protocol/dht-record.md）",
   " http_addr = \"::1\"    # HTTP 状态服务监听地址（与 http_port 成对出现；默认关）",
   " http_port = 8080     # HTTP 状态服务端口（/healthz + /api/status）",
   " web_dir = \"/var/lib/hextet/web\"   # 状态服务托管的静态前端目录（web/ 的 React 构建产物）",
   " ddns = false        # 自托管 DDNS 会合（默认关；见 docs/guides/ddns.md）",
   " ddns_fqdn = \"home.example.com\"   # 本节点要发布会合记录的域名（ddns = true 时必填）",
   " ddns_provider = \"webhook\"        # \"webhook\" 或 \"cloudflare\"",
   " ddns_webhook_url = \"https://ddns.example.com/update\"  # webhook 提供方必填",
   " ddns_secret = \"...\" # webhook 的 Bearer token 或 cloudflare 的 API token（秘密，勿提交）",
   " ddns_zone = \"example.com\"        # cloudflare 提供方必填",
   " ddns_resolver = \"1.1.1.1:53\"     # 覆盖系统 DNS、把 DDNS 查询指向的解析器（可选）"]

/-- The comments on peers. -/
def peerLines : List String :=
  [" 每个对端一个 [[peers]] 块：",
   " [[peers]]",
   " name = \"nas\"",
   " public_key = \"<对方 hextet keygen 输出的公钥>\"",
   " endpoints = [\"[对方公网IPv6]:4193\"]",
   " relay = true       # 这个 peer 可以当中继用（需要它自己开了 [node] relay）",
   " ddns = \"nas.example.com\"   # 按域名解析这个 peer（对端须开启 [node] ddns 发布）",
   " keepalive = 110    # 覆盖 [node] keepalive：纯 IPv6 路径可放宽到 ~110s；0 = 按需连接"]

/-- `render_template`, the line on the state directory. -/
def stateDirLine : Option PathBuf → List Char
  | some dir => quoted "state_dir" dir.display
  | none => comments [" state_dir = \"/var/lib/hextet\""]

/-- `Config::render_template`. -/
def renderTemplate (name : String) (networkKey : NetworkKey) (keyFile : PathBuf)
    (listenPort : UInt16) (stateDir : Option PathBuf) : List Char :=
  comments headLines ++
    '\n' :: '[' :: ("network".toList ++ [']', '\n']) ++
    quoted "name" name.toList ++
    comments keyLines ++
    quoted "key" networkKey.toBase64.toList ++
    '\n' :: '[' :: ("node".toList ++ [']', '\n']) ++
    quoted "key_file" keyFile.display ++
    "listen_port".toList ++ ' ' :: '=' :: ' ' :: (Nat.toDigits 10 listenPort.toNat ++ ['\n']) ++
    comments optionLines ++
    stateDirLine stateDir ++
    '\n' :: comments peerLines

/-! ### Texts that stand for themselves, and escaped ones -/

theorem isPlain_toBase64 (b : List UInt8) : (Base64.encode b).all Toml.isPlain = true := by
  have hall : ∀ n : Fin 64, Toml.isPlain (Base64.symbol n) = true := by decide
  rw [List.all_eq_true]
  intro c hc
  rcases Base64.mem_encode hc with rfl | ⟨n, hn, rfl⟩
  · decide
  · exact hall ⟨n, hn⟩

theorem isPlain_toDigits {radix : ℕ} (hr : 1 < radix) (hr' : radix ≤ 16) (n : ℕ) :
    (Nat.toDigits radix n).all Toml.isPlain = true := by
  have hall : ∀ d : Fin 16, Toml.isPlain (Nat.digitChar d) = true := by decide
  obtain ⟨ds, hds, htext, -⟩ := exists_digits hr n
  rw [htext, List.all_eq_true]
  intro c hc
  obtain ⟨d, hd, rfl⟩ := List.mem_map.1 hc
  exact hall ⟨d, by have := hds d hd; omega⟩

theorem isPlain_fmtGroups (i : ℕ) (gs : List ℕ) : (fmtGroups i gs).all Toml.isPlain = true := by
  induction gs generalizing i with
  | nil => rfl
  | cons g gs ih =>
      have hsep : (if 0 < i then [':'] else []).all Toml.isPlain = true := by
        split_ifs <;> decide
      rw [fmtGroups, List.all_append, List.all_append, hsep, ih,
        isPlain_toDigits (by omega) (by omega)]
      rfl

theorem isPlain_fmtOctets (i : ℕ) (os : List ℕ) : (fmtOctets i os).all Toml.isPlain = true := by
  induction os generalizing i with
  | nil => rfl
  | cons o os ih =>
      have hsep : (if 0 < i then ['.'] else []).all Toml.isPlain = true := by
        split_ifs <;> decide
      rw [fmtOctets, List.all_append, List.all_append, hsep, ih,
        isPlain_toDigits (by omega) (by omega)]
      rfl

/-- The text of an endpoint stands for itself between quotes. -/
theorem isPlain_display (e : SocketAddrV6) : e.display.all Toml.isPlain = true := by
  have hip : e.ip.display.all Toml.isPlain = true := by
    unfold Ipv6Addr.display
    split_ifs
    · rw [List.all_append, isPlain_fmtOctets]
      decide
    · simp only
      split_ifs
      · rw [List.all_append, List.all_append, isPlain_fmtGroups, isPlain_fmtGroups]
        decide
      · exact isPlain_fmtGroups 0 _
  have hscope : (if e.scopeId = 0 then [] else '%' :: Nat.toDigits 10 e.scopeId.toNat).all
      Toml.isPlain = true := by
    split_ifs
    · rfl
    · rw [List.all_cons, isPlain_toDigits (by omega) (by omega)]
      decide
  simp only [SocketAddrV6.display, List.cons_append, List.all_cons, List.all_append, hip, hscope,
    isPlain_toDigits (show 1 < 10 by omega) (show 10 ≤ 16 by omega)]
  decide

theorem toDigit_upperHex {n : ℕ} (h : n < 0xA0) :
    (upperHex n).map (toDigit 16) = [some 0, some 0, some (n / 16), some (n % 16)] := by
  have hall : ∀ n : Fin 0xA0, (upperHex n).map (toDigit 16) =
      [some 0, some 0, some (n.val / 16), some (n.val % 16)] := by decide +kernel
  exact hall ⟨n, h⟩

/-- An escaped control character is read back. -/
theorem readFrom_upperHex {c : Char} (h : c.toNat < 0xA0) (t : List Char) :
    Toml.readFrom .text ('\\' :: 'u' :: (upperHex c.toNat ++ t)) =
      (Toml.readFrom .text t).map fun r => (c :: r.1, r.2) := by
  have hdigits := toDigit_upperHex h
  generalize upperHex c.toNat = ds at hdigits
  rcases ds with _ | ⟨d₀, _ | ⟨d₁, _ | ⟨d₂, _ | ⟨d₃, _ | ⟨d₄, ds⟩⟩⟩⟩⟩ <;>
    simp only [List.map_cons, List.map_nil, List.cons.injEq, reduceCtorEq, and_false] at hdigits
  obtain ⟨h₀, h₁, h₂, h₃, -⟩ := hdigits
  have hval : 16 * (16 * (16 * (16 * 0 + 0) + 0) + c.toNat / 16) + c.toNat % 16 = c.toNat := by
    omega
  have hscalar : Toml.scalar c.toNat = some c := by
    rw [Toml.scalar, if_pos (show c.toNat.isValidChar from c.valid), Char.ofNat_toNat]
  simp only [List.cons_append, List.nil_append, Toml.readFrom, h₀, h₁, h₂, h₃, hval, hscalar]
  rfl

theorem readFrom_escapeChar (c : Char) (t : List Char) :
    Toml.readFrom .text (escapeChar c ++ t) =
      (Toml.readFrom .text t).map fun r => (c :: r.1, r.2) := by
  unfold escapeChar
  split_ifs with hq hb hn hr ht hc
  · subst hq
    rfl
  · subst hb
    rfl
  · subst hn
    rfl
  · subst hr
    rfl
  · subst ht
    rfl
  · refine readFrom_upperHex ?_ t
    simp only [isControl, Bool.or_eq_true, Bool.and_eq_true, decide_eq_true_eq] at hc
    omega
  · have hplain : Toml.isPlain c = true := by
      simp only [isControl, Bool.or_eq_true, Bool.and_eq_true, decide_eq_true_eq, not_or,
        not_and, not_lt] at hc
      simp only [Toml.isPlain, Bool.or_eq_true, Bool.and_eq_true, decide_eq_true_eq, bne_iff_ne]
      refine .inr ⟨⟨⟨by omega, fun h => ?_⟩, hq⟩, hb⟩
      have := hc.2
      omega
    rw [List.singleton_append, Toml.readFrom, if_neg hq, if_neg hb, if_pos hplain]

/-- **An escaped text is read back**, whatever it is. -/
theorem readFrom_escape (s r : List Char) :
    Toml.readFrom .text (escape s ++ '"' :: r) = some (s, r) := by
  induction s with
  | nil => rfl
  | cons c s ih =>
      rw [escape, List.flatMap_cons, List.append_assoc, readFrom_escapeChar]
      change (Toml.readFrom .text (escape s ++ '"' :: r)).map _ = _
      rw [ih]
      rfl

theorem decode_escape (s : String) : Toml.decode (escape s.toList) = some s := by
  simp [Toml.decode, readFrom_escape]

/-! ### The template as a document -/

/-- The lines before the network name. -/
def headDoc : List Toml.Line :=
  (headLines.map String.toList).map .comment ++ [.blank, .header (.table "network")]

/-- The lines from the network name to the node section. -/
def networkDoc (name : List Char) (networkKey : NetworkKey) : List Toml.Line :=
  .pair "name" (.string name) :: ((keyLines.map String.toList).map .comment ++
    [.pair "key" (.string (Base64.encode networkKey.bytes.1)), .blank, .header (.table "node")])

/-- The node section up to the state directory. -/
def nodeDoc (keyFile : List Char) (listenPort : UInt16) : List Toml.Line :=
  .pair "key_file" (.string keyFile) :: .pair "listen_port" (.integer listenPort.toNat) ::
    (optionLines.map String.toList).map .comment

/-- The line on the state directory. -/
def stateDirDoc : Option (List Char) → List Toml.Line
  | some dir => [.pair "state_dir" (.string dir)]
  | none => [.comment " state_dir = \"/var/lib/hextet\"".toList]

/-- The lines after the state directory. -/
def tailDoc : List Toml.Line := .blank :: (peerLines.map String.toList).map .comment

/-- One peer. -/
def peerDoc (name : String) (publicKey : NodePublicKey C) (endpoints : List SocketAddrV6) :
    List Toml.Line :=
  [.blank, .header (.element "peers"), .pair "name" (.string (escape name.toList)),
    .pair "public_key" (.string (Base64.encode publicKey.bytes.1))] ++
    if endpoints = [] then []
    else [.pair "endpoints" (.strings (endpoints.map SocketAddrV6.display))]

theorem text_comments (ls : List String) :
    Toml.text ((ls.map String.toList).map .comment) = comments ls := by
  induction ls with
  | nil => rfl
  | cons l ls ih =>
      rw [List.map_cons, List.map_cons, Toml.text_cons, ih, comments, comments, List.flatMap_cons]
      simp only [Toml.Line.text, List.cons_append, List.append_assoc, List.nil_append]

theorem stringsText_eq {items : List (List Char)} (h : items ≠ []) :
    Toml.stringsText items = quotedList items ++ [']'] := by
  induction items with
  | nil => exact absurd rfl h
  | cons i items ih =>
      cases items with
      | nil => simp [Toml.stringsText, quotedList]
      | cons i' items =>
          rw [Toml.stringsText, ih (by simp)]
          · simp [quotedList, List.intercalate]
          · simp

/-- The template is a document, the network name and the paths taken as they
stand between the quotes. -/
theorem renderTemplate_eq (name : String) (networkKey : NetworkKey) (keyFile : PathBuf)
    (listenPort : UInt16) (stateDir : Option PathBuf) :
    renderTemplate name networkKey keyFile listenPort stateDir =
      Toml.text (headDoc ++ networkDoc name.toList networkKey ++
        nodeDoc keyFile.display listenPort ++ stateDirDoc (stateDir.map PathBuf.display) ++
        tailDoc) := by
  have hbase : networkKey.toBase64.toList = Base64.encode networkKey.bytes.1 := String.toList_ofList
  have hline : stateDirLine stateDir =
      Toml.text (stateDirDoc (stateDir.map PathBuf.display)) := by
    cases stateDir with
    | none => exact (text_comments _).symm
    | some dir =>
        simp only [stateDirLine, quoted, stateDirDoc, Option.map_some, Toml.text_cons,
          Toml.text_nil, Toml.Line.text, Toml.Literal.text, List.append_assoc, List.cons_append,
          List.nil_append]
  rw [renderTemplate, hline, hbase]
  simp only [headDoc, networkDoc, nodeDoc, tailDoc, quoted, Toml.text_append, Toml.text_cons,
    text_comments, Toml.Line.text, Toml.Header.text, Toml.Literal.text,
    List.append_assoc, List.cons_append, List.nil_append]

/-! ### What the document says -/

/-- The network section. -/
def networkTable (name : List Char) (networkKey : NetworkKey) : Toml.Table :=
  [("name", .string (String.ofList name)), ("key", .string networkKey.toBase64)]

/-- The node section. -/
def nodeTable (keyFile : List Char) (listenPort : UInt16) (stateDir : Option (List Char)) :
    Toml.Table :=
  [("key_file", .string (String.ofList keyFile)), ("listen_port", .integer listenPort.toNat)] ++
    (stateDir.map fun dir => ("state_dir", .string (String.ofList dir))).toList

/-- A peer. -/
def peerTable (name : String) (publicKey : NodePublicKey C) (endpoints : List SocketAddrV6) :
    Toml.Table :=
  [("name", .string name), ("public_key", .string publicKey.toBase64)] ++
    if endpoints = [] then []
    else [("endpoints", .array (endpoints.map fun e => .string (String.ofList e.display)))]

theorem isComment_of_chars {l : List Char} (h : l.all Toml.isCommentChar = true) :
    (String.ofList l).toList.all Toml.isCommentChar = true := by
  rwa [String.toList_ofList]

/-- The comments of the template are comments. -/
theorem isComment_template {ls : List String}
    (h : ls ∈ [headLines, keyLines, optionLines, peerLines]) :
    (ls.map String.toList).all (·.all Toml.isCommentChar) = true := by
  simp only [List.mem_cons, List.not_mem_nil, or_false] at h
  rw [List.all_map, List.all_eq_true]
  rcases h with rfl | rfl | rfl | rfl <;>
    simp only [headLines, keyLines, optionLines, peerLines, List.forall_mem_cons,
      List.not_mem_nil, false_implies, implies_true, and_true, Function.comp_apply]
  · refine ⟨?_, ?_⟩ <;> exact isComment_of_chars (by decide +kernel)
  · exact isComment_of_chars (by decide +kernel)
  · refine ⟨?_, ?_, ?_, ?_, ?_, ?_, ?_, ?_, ?_, ?_, ?_, ?_, ?_, ?_, ?_, ?_, ?_, ?_, ?_, ?_, ?_, ?_,
      ?_⟩ <;> exact isComment_of_chars (by decide +kernel)
  · refine ⟨?_, ?_, ?_, ?_, ?_, ?_, ?_, ?_⟩ <;> exact isComment_of_chars (by decide +kernel)

theorem isBare_of_chars {l : List Char} (h : (l != [] && l.all Toml.isBareChar) = true) :
    Toml.isBare (String.ofList l) = true := by
  rwa [Toml.isBare, String.toList_ofList]

section Run

open Toml.Builder

variable {name keyFile dir : List Char} {t : Toml.Table}

theorem decode_toBase64 (b : List UInt8) :
    Toml.decode (Base64.encode b) = some (String.ofList (Base64.encode b)) :=
  Toml.decode_plain (isPlain_toBase64 b)

theorem run_headDoc : run ⟨[], none⟩ headDoc = some ⟨[], some (.table "network", [])⟩ := by
  have hnetwork := Toml.entry_header
    (show Toml.isBare (Toml.Header.table "network").name = true from isBare_of_chars (by decide))
  rw [headDoc, run_lines (run_comments _ (isComment_template (by simp))), run_blank,
    run_line hnetwork (step_table rfl)]
  rfl

theorem run_networkDoc (hname : name.all Toml.isPlain = true) (networkKey : NetworkKey) :
    run ⟨[], some (.table "network", [])⟩ (networkDoc name networkKey) =
      some ⟨[("network", .table (networkTable name networkKey))], some (.table "node", [])⟩ := by
  have hn := Toml.entry_string (show Toml.isBare "name" = true from isBare_of_chars (by decide))
    (Toml.decode_plain hname)
  have hk := Toml.entry_string (show Toml.isBare "key" = true from isBare_of_chars (by decide))
    (decode_toBase64 networkKey.bytes.1)
  have hnode := Toml.entry_header
    (show Toml.isBare (Toml.Header.table "node").name = true from isBare_of_chars (by decide))
  rw [networkDoc, run_line hn (step_pair rfl rfl),
    run_lines (run_comments _ (isComment_template (by simp))),
    run_line hk (step_pair rfl (by simp)), run_blank,
    run_line hnode (step_table (by simp [flush]))]
  rfl

theorem run_nodeDoc (hfile : keyFile.all Toml.isPlain = true) (listenPort : UInt16) :
    run ⟨t, some (.table "node", [])⟩ (nodeDoc keyFile listenPort) =
      some ⟨t, some (.table "node", nodeTable keyFile listenPort none)⟩ := by
  have hk := Toml.entry_string (show Toml.isBare "key_file" = true from isBare_of_chars (by decide))
    (Toml.decode_plain hfile)
  have hp : (Toml.Line.pair "listen_port" (.integer listenPort.toNat)).entry =
      some (.pair "listen_port" (.integer listenPort.toNat)) := by
    have := listenPort.toNat_lt
    rw [Toml.Line.entry, if_pos (isBare_of_chars (by decide)), Toml.Literal.value,
      if_pos (by omega)]
    rfl
  rw [nodeDoc, run_line hk (step_pair rfl rfl), run_line hp (step_pair rfl (by simp)),
    run_comments _ (isComment_template (by simp))]
  rfl

theorem run_stateDirDoc {stateDir : Option (List Char)}
    (hdir : ∀ dir ∈ stateDir, dir.all Toml.isPlain = true) (listenPort : UInt16) :
    run ⟨t, some (.table "node", nodeTable keyFile listenPort none)⟩ (stateDirDoc stateDir) =
      some ⟨t, some (.table "node", nodeTable keyFile listenPort stateDir)⟩ := by
  cases stateDir with
  | none =>
      have hc : " state_dir = \"/var/lib/hextet\"".toList.all Toml.isCommentChar = true :=
        isComment_of_chars (by decide)
      rw [stateDirDoc, run_line (Toml.entry_comment hc) rfl]
      rfl
  | some dir =>
      have hk := Toml.entry_string
        (show Toml.isBare "state_dir" = true from isBare_of_chars (by decide))
        (Toml.decode_plain (hdir dir rfl))
      rw [stateDirDoc, run_line hk (step_pair rfl (by simp [nodeTable]))]
      rfl

theorem run_tailDoc (b : Toml.Builder) : b.run tailDoc = some b := by
  rw [tailDoc, run_blank, run_comments b (isComment_template (by simp))]

end Run

end File

end Hextet

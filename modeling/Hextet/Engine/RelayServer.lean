/-
# The relay server

`crates/engine/src/relay_server.rs`.  `serve` reads control frames and keeps a table of
sessions, one for a pair of nodes, each with a UDP port of its own and a task that
forwards on it.  `forward` is that task: it learns the addresses of the two sides over a
bounded channel, from which the server drops what does not fit, and passes a datagram
that comes from one side on to the other.

The server and its tasks are one state here.  An input is one event of one of the
`select!` loops: a prune tick, a control datagram, an update that a task takes from its
channel, a datagram or a read error on a session's socket; any order of inputs is a run.
The clocks, and whether a socket can be bound and to which port, come with the input.  A
read error on the control socket ends `serve`, and with it the run.

A task keeps the place in `tasks` that it got when it was spawned.  A sender is the place
of the task it feeds, so a channel is closed when no entry of `senders` has its place.
-/

import Hextet.Core.RelayFrame
import Hextet.Engine.Lan
import Hextet.Engine.Runtime
import Hextet.Lib.KeyMap

namespace Hextet

open Lib

variable {C : Crypto}

/-- `SESSION_TTL.as_secs()`. -/
def sessionTtlSecs : ℕ := 180

/-- `MAX_SESSIONS`. -/
def maxSessions : ℕ := 256

/-- `SEQ_SKEW_TOLERANCE_SECS` of the relay. -/
def relaySeqSkewToleranceSecs : ℕ := 300

/-- `MAX_PACKETS_PER_SEC`. -/
def maxPacketsPerSec : ℕ := 2000

/-- `FORWARD_BUF`. -/
def forwardBuf : ℕ := 2048

/-- The length of the buffer of the control socket. -/
def controlBuf : ℕ := 256

/-- The capacity of the channel to a forwarding task. -/
def channelCap : ℕ := 4

/-- `RelayPolicy`. -/
inductive RelayPolicy where
  | anyMember
  | allowlist (list : List (Bytes 32))

/-- `RelayPolicy::allows`. -/
def RelayPolicy.allows : RelayPolicy → Bytes 32 → Bool
  | .anyMember, _ => true
  | .allowlist list, key => decide (key ∈ list)

/-- `SessionAddrs`: the data addresses of the two sides. -/
abbrev SessionAddrs := Fin 2 → Option SocketAddrV6

/-- `[None, None]`. -/
def noAddrs : SessionAddrs := fun _ => none

/-- `Session`. -/
structure Session where
  port : UInt16
  addrs : SessionAddrs
  lastSeenUnix : ℕ
  deriving DecidableEq

/-- `RelayTable`. -/
structure RelayTable where
  sessions : KeyMap SessionKey Session

namespace RelayTable

/-- `RelayTable::new`. -/
def new : RelayTable := ⟨.empty⟩

/-- `RelayTable::len`. -/
def len (t : RelayTable) : ℕ := t.sessions.size

/-- `RelayTable::contains`. -/
def contains (t : RelayTable) (key : SessionKey) : Bool := (t.sessions.get? key).isSome

/-- `RelayTable::insert`: whether there was room, and the table. -/
def insert (t : RelayTable) (key : SessionKey) (port : UInt16) (nowUnix : ℕ) : Bool × RelayTable :=
  if maxSessions ≤ t.len then (false, t)
  else (true, ⟨t.sessions.insert key ⟨port, noAddrs, nowUnix⟩⟩)

/-- `RelayTable::touch_addr`: whether the address of the side changed, and the table. -/
def touchAddr (t : RelayTable) (key : SessionKey) (side : Fin 2) (addr : SocketAddrV6)
    (nowUnix : ℕ) : Bool × RelayTable :=
  match t.sessions.get? key with
  | none => (false, t)
  | some session =>
      if session.addrs side = some addr then
        (false, ⟨t.sessions.modify key fun s => { s with lastSeenUnix := nowUnix }⟩)
      else
        (true, ⟨t.sessions.modify key fun s =>
          { s with lastSeenUnix := nowUnix, addrs := Function.update s.addrs side (some addr) }⟩)

/-- `RelayTable::addrs`. -/
def addrs (t : RelayTable) (key : SessionKey) : SessionAddrs :=
  ((t.sessions.get? key).map Session.addrs).getD noAddrs

/-- `RelayTable::port`. -/
def port (t : RelayTable) (key : SessionKey) : Option UInt16 :=
  (t.sessions.get? key).map Session.port

/-- `RelayTable::remove`. -/
def remove (t : RelayTable) (key : SessionKey) : RelayTable := ⟨t.sessions.erase key⟩

/-- `prune` drops the session. -/
def stale (nowUnix : ℕ) (s : Session) : Bool := decide (sessionTtlSecs < nowUnix - s.lastSeenUnix)

/-- `RelayTable::prune`: the keys that were dropped, and the table. -/
def prune (t : RelayTable) (nowUnix : ℕ) : List SessionKey × RelayTable :=
  let old := (t.sessions.entries.filter fun x => stale nowUnix x.2).map Prod.fst
  (old, ⟨old.foldl KeyMap.erase t.sessions⟩)

end RelayTable

/-- `PacketLimiter`. -/
structure PacketLimiter where
  windowStart : Instant
  count : ℕ
  dropped : ℕ
  deriving DecidableEq

namespace PacketLimiter

/-- `PacketLimiter::new`. -/
def new (now : Instant) : PacketLimiter := ⟨now, 0, 0⟩

/-- `PacketLimiter::allow`: whether the packet passes, and the limiter. -/
def allow (l : PacketLimiter) (now : Instant) : Bool × PacketLimiter :=
  let l := if 1000000000 ≤ now - l.windowStart then new now else l
  if maxPacketsPerSec ≤ l.count then (false, { l with dropped := min (l.dropped + 1) 0xffffffff })
  else (true, { l with count := l.count + 1 })

end PacketLimiter

/-- A task that runs `forward`: the pair it was spawned for and the port of its socket, its
variables, and the channel it reads. -/
structure Forwarder where
  key : SessionKey
  port : UInt16
  running : Bool
  addrs : SessionAddrs
  limiter : PacketLimiter
  queue : List SessionAddrs

namespace Forwarder

/-- The task as it is spawned. -/
def spawn (key : SessionKey) (port : UInt16) (now : Instant) : Forwarder :=
  ⟨key, port, true, noAddrs, .new now, []⟩

/-- `try_send`: lost when the task is gone or its channel is full. -/
def trySend (f : Forwarder) (addrs : SessionAddrs) : Forwarder :=
  if f.running = true ∧ f.queue.length < channelCap then { f with queue := f.queue ++ [addrs] }
  else f

/-- `rx.recv()`: the next update, or the end when there is none left and no sender. -/
def takeUpdate (f : Forwarder) (hasSender : Bool) : Forwarder :=
  match f.queue with
  | next :: rest => { f with addrs := next, queue := rest }
  | [] => if hasSender then f else { f with running := false }

local instance neZeroSides : NeZero 2 := ⟨two_ne_zero⟩

/-- Where a datagram from an address goes. -/
def destination (f : Forwarder) (src : SocketAddrV6) : Option SocketAddrV6 :=
  if some src = f.addrs 0 then f.addrs 1
  else if some src = f.addrs 1 then f.addrs 0
  else none

/-- `socket.recv_from` of a datagram: what is sent and where to, and the task. -/
def onDatagram (f : Forwarder) (datagram : List UInt8) (src : SocketAddr) (now : Instant) :
    Option (List UInt8 × SocketAddrV6) × Forwarder :=
  let buf := datagram.take forwardBuf
  match src with
  | .v4 => (none, f)
  | .v6 src =>
      if isRelayFrame buf then (none, f)
      else if buf.length = forwardBuf then (none, f)
      else
        match f.destination (normalize src) with
        | none => (none, f)
        | some dst =>
            let (pass, limiter) := f.limiter.allow now
            (if pass then some (buf, dst) else none, { f with limiter })

end Forwarder

/-- The variables of `serve`, and the tasks it has spawned. -/
structure RelayServer where
  table : RelayTable
  senders : KeyMap SessionKey ℕ
  tasks : List Forwarder

/-- An event of one of the loops. -/
inductive RelayInput where
  /-- `pruner.tick()`. -/
  | prune (nowUnix : ℕ)
  /-- A control datagram; `bind` is the port a new session socket gets, if it gets one. -/
  | control (datagram : List UInt8) (src : SocketAddr) (nowUnix : ℕ) (now : Instant)
      (bind : Option UInt16)
  /-- A task reads its channel. -/
  | update (task : ℕ)
  /-- A task fails to read its socket. -/
  | socketError (task : ℕ)
  /-- A task receives a datagram. -/
  | data (task : ℕ) (datagram : List UInt8) (src : SocketAddr) (now : Instant)

/-- What the server or a task sends. -/
inductive RelayOutput (C : Crypto) where
  /-- A `RegisterAck`, on the control socket. -/
  | ack (frame : RelayFrame C) (dst : SocketAddrV6)
  /-- A datagram, on the socket of a task; `src` is where it came from. -/
  | forwarded (task : ℕ) (datagram : List UInt8) (src : SocketAddr) (dst : SocketAddrV6)
  deriving DecidableEq

/-- What `serve` is started with, for nodes with keys of `C`. -/
structure RelayConfig (C : Crypto) where
  hmac : Hmac
  relayKey : Bytes 32
  policy : RelayPolicy

namespace RelayServer

/-- The start of `serve`. -/
def new : RelayServer := ⟨.new, .empty, []⟩

/-- Stale sessions go, with their senders. -/
def pruned (s : RelayServer) (nowUnix : ℕ) : RelayServer :=
  let (old, table) := s.table.prune nowUnix
  { s with table, senders := old.foldl KeyMap.erase s.senders }

/-- A session on a new socket, and its task. -/
def spawned (s : RelayServer) (key : SessionKey) (port : UInt16) (nowUnix : ℕ) (now : Instant) :
    RelayServer × Bool :=
  let (inserted, table) := s.table.insert key port nowUnix
  if inserted then
    ({ table, senders := s.senders.insert key s.tasks.length,
       tasks := s.tasks ++ [.spawn key port now] }, true)
  else ({ s with table }, false)

/-- `if !table.contains(&key) { .. }`: whether the pair has a session after it. -/
def ensured (s : RelayServer) (key : SessionKey) (nowUnix : ℕ) (now : Instant)
    (bind : Option UInt16) : RelayServer × Bool :=
  if s.table.contains key then (s, true)
  else
    let s := s.pruned nowUnix
    if maxSessions ≤ s.table.len then (s, false)
    else
      match bind with
      | none => (s, false)
      | some port => s.spawned key port nowUnix now

/-- The address of a side goes to the table, and the addresses to the task. -/
def announced (s : RelayServer) (key : SessionKey) (side : Fin 2) (addr : SocketAddrV6)
    (nowUnix : ℕ) : RelayServer :=
  let table := (s.table.touchAddr key side addr nowUnix).2
  match s.senders.get? key with
  | some i => { s with table, tasks := s.tasks.modify i fun f => f.trySend (table.addrs key) }
  | none => { s with table }

/-- The data address that a Register announces. -/
def dataAddr (src : SocketAddrV6) (frame : RelayFrame C) : SocketAddrV6 :=
  normalize ⟨src.ip, frame.port, 0, 0⟩

/-- `RelayKind::Register`. -/
def onRegister (s : RelayServer) (frame : RelayFrame C) (src : SocketAddrV6) (nowUnix : ℕ)
    (now : Instant) (bind : Option UInt16) : RelayServer × List (RelayOutput C) :=
  if frame.port = 0 then (s, [])
  else
    match s.ensured frame.sessionKey nowUnix now bind with
    | (s, false) => (s, [])
    | (s, true) =>
        let s := s.announced frame.sessionKey frame.side (dataAddr src frame) nowUnix
        let port := (s.table.port frame.sessionKey).getD 0
        (s, [.ack ⟨.registerAck, port, UInt64.ofNat nowUnix, frame.selfKey, frame.peerKey⟩ src])

/-- `RelayKind::Unregister`. -/
def onUnregister (s : RelayServer) (key : SessionKey) : RelayServer :=
  if s.table.contains key then
    { s with table := s.table.remove key, senders := s.senders.erase key }
  else s

/-- The checks on a control datagram: its frame and source, if it is authentic, of about now
and from a node that may use the relay. -/
def opened (cfg : RelayConfig C) (datagram : List UInt8) (src : SocketAddr)
    (nowUnix : ℕ) : Option (RelayFrame C × SocketAddrV6) :=
  match src with
  | .v4 => none
  | .v6 src =>
      match RelayFrame.decode C cfg.hmac cfg.relayKey (datagram.take controlBuf) with
      | .ok frame =>
          if absDiff frame.seq.toNat nowUnix > relaySeqSkewToleranceSecs then none
          else if cfg.policy.allows frame.selfKey.bytes = false then none
          else some (frame, src)
      | _ => none

/-- A control datagram. -/
def onControl (cfg : RelayConfig C) (s : RelayServer) (datagram : List UInt8) (src : SocketAddr)
    (nowUnix : ℕ) (now : Instant) (bind : Option UInt16) : RelayServer × List (RelayOutput C) :=
  match opened cfg datagram src nowUnix with
  | none => (s, [])
  | some (frame, src) =>
      match frame.kind with
      | .register => s.onRegister frame src nowUnix now bind
      | .unregister => (s.onUnregister frame.sessionKey, [])
      | .registerAck => (s, [])

/-- The channel of a task has a sender. -/
def hasSender (s : RelayServer) (i : ℕ) : Bool := s.senders.entries.any fun x => x.2 == i

/-- A task that runs goes on; one that has ended does not. -/
def onTask (s : RelayServer) (i : ℕ) (g : Forwarder → Forwarder) : RelayServer :=
  { s with tasks := s.tasks.modify i fun f => if f.running = true then g f else f }

/-- A datagram on the socket of a task. -/
def onData (s : RelayServer) (i : ℕ) (datagram : List UInt8) (src : SocketAddr) (now : Instant) :
    RelayServer × List (RelayOutput C) :=
  let sent := (s.tasks[i]?.filter Forwarder.running).bind fun f => (f.onDatagram datagram src now).1
  (s.onTask i fun f => (f.onDatagram datagram src now).2,
    sent.toList.map fun x => .forwarded i x.1 src x.2)

/-- One event. -/
def handle (cfg : RelayConfig C) (s : RelayServer) : RelayInput → RelayServer × List (RelayOutput C)
  | .prune nowUnix => (s.pruned nowUnix, [])
  | .control datagram src nowUnix now bind => s.onControl cfg datagram src nowUnix now bind
  | .update i => (s.onTask i fun f => f.takeUpdate (s.hasSender i), [])
  | .socketError i => (s.onTask i fun f => { f with running := false }, [])
  | .data i datagram src now => s.onData i datagram src now

end RelayServer

end Hextet

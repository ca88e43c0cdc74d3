/-
# What a probe tells

The verdict of `hextet doctor` over whole runs of a probe, whatever the network does with the
packets.

Behind a wall that lets in only what is for a port that something was sent from, the verdict is
never `open` (`never_open`); no key and no packet of others changes that.  If such a wall stands
before the other node it is neither `open` nor `stateful`, and each piece of evidence goes back
to a request of this probe that the other node answered (`evidence_attributed`).  In a run in
which one request and what it brings about come through (`Exchanged`), the verdict is what the
wall of the node is, whatever else happens and is lost (`probe_classifies`).
-/

import Hextet.Core.PlainCrypto
import Hextet.Engine.Doctor
import Hextet.Lib.Run

namespace Hextet

open Lib

namespace ProbeNet

variable {cfg : ProbeConfig} {w : ProbeNet}

/-! ### Walls -/

/-- A wall that lets in only what is for a port that something was sent from. -/
def PortWall (wall : Wall) : Prop :=
  ∀ sent p, wall sent p = true → ∃ o ∈ sent, o.src.port = p.dst.port

/-- A port has one program behind it: nothing else sends from the second port of the client. -/
def OwnPorts (w : ProbeNet) : ProbeInput → Prop
  | .clientHost p => p.src.port ≠ w.client.port₂
  | _ => True

/-- Nothing else sends from the port of the responder, and a new socket gets a new port. -/
def ServerPorts (cfg : ProbeConfig) (_ : ProbeNet) : ProbeInput → Prop
  | .serverHost p => p.src.port ≠ cfg.probePort
  | .wake _ (some src) _ => src.port ≠ cfg.probePort
  | _ => True

instance (w : ProbeNet) : (input : ProbeInput) → Decidable (OwnPorts w input)
  | .clientHost _ => inferInstanceAs (Decidable (_ ≠ _))
  | .tick _ => .isTrue trivial
  | .deadline => .isTrue trivial
  | .toClient _ => .isTrue trivial
  | .toServer .. => .isTrue trivial
  | .wake .. => .isTrue trivial
  | .serverHost _ => .isTrue trivial

/-- Nothing was sent from the second port, and nothing has come to it. -/
structure Quiet (w : ProbeNet) : Prop where
  ports : w.client.port₁ ≠ w.client.port₂
  silent : ∀ o ∈ w.fromClient, o.src.port ≠ w.client.port₂
  unseen : w.client.unsolicitedOk = false

/-- **A step keeps the second port quiet.** -/
theorem Quiet.step (h : w.Quiet) (hwall : PortWall cfg.clientWall) {input : ProbeInput}
    (hown : w.OwnPorts input) : (w.step cfg input).Quiet := by
  have hlater := later_step cfg w input
  refine ⟨?_, fun o ho => ?_, ?_⟩
  · rw [hlater.port₁, hlater.port₂]
    exact h.ports
  · rw [hlater.port₂]
    obtain ho | rfl | ⟨ip, rfl⟩ := mem_fromClient_step ho
    · exact h.silent o ho
    · exact hown
    · exact h.ports
  · obtain hclient | hclient | ⟨hclient, -⟩ | ⟨-, p, q, rfl, hin, hport, -⟩ :=
      client_step cfg w input
    · rw [hclient, h.unseen]
    · rw [hclient]
      exact h.unseen
    · rw [hclient]
      exact h.unseen
    · obtain ⟨o, ho, heq⟩ := hwall _ _ hin
      exact absurd (heq.trans hport) (h.silent o ho)

theorem verdict_ne_open {c : ProbeClient} (h : c.unsolicitedOk = false) : c.verdict ≠ .open := by
  rw [ProbeClient.verdict, ProbeClient.evidence, classifyEvidence, h, if_neg Bool.false_ne_true]
  split_ifs <;> simp

theorem verdict_of_addresses {c : ProbeClient} {globalAddresses : List Ipv6Addr}
    (h : c.globalAddresses = globalAddresses) :
    c.verdict = classifyEvidence ⟨!globalAddresses.isEmpty, c.solicitedOk, c.unsolicitedOk⟩ := by
  subst h
  rfl

/-! ### What the evidence goes back to -/

/-- Whoever has not the key makes no probe of this nonce: what comes to a host and carries one was
sent as such from one of the hosts, by the client or the responder. -/
def Genuine (cfg : ProbeConfig) (w : ProbeNet) : ProbeInput → Prop
  | .toClient p => ∀ q, cfg.Carries w.client.nonce p q →
      ∃ o ∈ w.fromClient ++ w.fromServer, cfg.Carries w.client.nonce o q
  | .toServer p _ => ∀ q, cfg.Carries w.client.nonce p q →
      ∃ o ∈ w.fromClient ++ w.fromServer, cfg.Carries w.client.nonce o q
  | .clientHost p => ∀ q, ¬cfg.Carries w.client.nonce p q
  | .serverHost p => ∀ q, ¬cfg.Carries w.client.nonce p q
  | _ => True

/-- The responder answered the request of this probe, in a packet. -/
def Answered (cfg : ProbeConfig) (w : ProbeNet) (p : UdpPacket) : Prop :=
  p ∈ w.answered ∧ cfg.Carries w.client.nonce p w.client.request

/-- Where the responder sends what was not asked for, after a packet of this probe. -/
def unsolicitedTarget (w : ProbeNet) (p : UdpPacket) : SocketAddrV6 :=
  ⟨p.src.ip, w.client.port₂, 0, p.src.scopeId⟩

/-- What was sent and seen of this probe goes back to its request. -/
structure Attributed (cfg : ProbeConfig) (w : ProbeNet) : Prop where
  fromClient : ∀ o ∈ w.fromClient, ∀ q, cfg.Carries w.client.nonce o q → q = w.client.request
  fromServer : ∀ o ∈ w.fromServer, ∀ q, cfg.Carries w.client.nonce o q →
    ∃ p, w.Answered cfg p ∧
      (q.kind = .response ∨ q.kind = .unsolicited ∧ o.dst = w.unsolicitedTarget p)
  tasks : ∀ t ∈ w.server.tasks, t.nonce = w.client.nonce →
    ∃ p, w.Answered cfg p ∧ t.target = w.unsolicitedTarget p
  solicited : w.client.solicitedOk = true → ∃ p, w.Answered cfg p
  unsolicited : w.client.unsolicitedOk = true → ∃ p, w.Answered cfg p ∧
    ∃ o ∈ w.fromServer, o.dst = w.unsolicitedTarget p ∧
      ∃ q, cfg.Carries w.client.nonce o q ∧ q.kind = .unsolicited

theorem attributed_start (target : SocketAddrV6) (globalAddresses : List Ipv6Addr)
    (port₁ port₂ : UInt16) (nonce : UInt64) (limiter : RateLimiter) :
    (start (.start target globalAddresses port₁ port₂ nonce) limiter).Attributed cfg where
  fromClient o ho := by cases ho
  fromServer o ho := by cases ho
  tasks t ht := by cases ht
  solicited h := by cases h
  unsolicited h := by cases h

/-- What the server's side and its records do is enough, if the client stays. -/
theorem Attributed.grow (h : w.Attributed cfg) {w' : ProbeNet} (hclient : w'.client = w.client)
    (hfrom : w'.fromClient = w.fromClient) (hsent : w.fromServer ⊆ w'.fromServer)
    (hanswered : w.answered ⊆ w'.answered)
    (hnew : ∀ o ∈ w'.fromServer, o ∉ w.fromServer → ∀ q, cfg.Carries w.client.nonce o q →
      ∃ p, w'.Answered cfg p ∧
        (q.kind = .response ∨ q.kind = .unsolicited ∧ o.dst = w.unsolicitedTarget p))
    (htasks : ∀ t ∈ w'.server.tasks, t ∉ w.server.tasks → t.nonce = w.client.nonce →
      ∃ p, w'.Answered cfg p ∧ t.target = w.unsolicitedTarget p) : w'.Attributed cfg := by
  have hkeep : ∀ {p}, w.Answered cfg p → w'.Answered cfg p := by
    rintro p ⟨hp, hq⟩
    refine ⟨hanswered hp, ?_⟩
    rw [hclient]
    exact hq
  have htarget : ∀ p, w'.unsolicitedTarget p = w.unsolicitedTarget p := by
    intro p
    rw [unsolicitedTarget, hclient, ← unsolicitedTarget]
  refine ⟨?_, fun o ho q hq => ?_, fun t ht hnonce => ?_, ?_, ?_⟩
  · rw [hfrom, hclient]
    exact h.fromClient
  · rw [hclient] at hq
    by_cases hold : o ∈ w.fromServer
    · obtain ⟨p, hp, hkind⟩ := h.fromServer o hold q hq
      exact ⟨p, hkeep hp, by rwa [htarget]⟩
    · obtain ⟨p, hp, hkind⟩ := hnew o ho hold q hq
      exact ⟨p, hp, by rwa [htarget]⟩
  · rw [hclient] at hnonce
    by_cases hold : t ∈ w.server.tasks
    · obtain ⟨p, hp, heq⟩ := h.tasks t hold hnonce
      exact ⟨p, hkeep hp, by rwa [htarget]⟩
    · obtain ⟨p, hp, heq⟩ := htasks t ht hold hnonce
      exact ⟨p, hp, by rwa [htarget]⟩
  · rw [hclient]
    intro hok
    obtain ⟨p, hp⟩ := h.solicited hok
    exact ⟨p, hkeep hp⟩
  · rw [hclient]
    intro hok
    obtain ⟨p, hp, o, ho, hdst, hq⟩ := h.unsolicited hok
    exact ⟨p, hkeep hp, o, hsent ho, by rwa [htarget], hq⟩

/-- A request that comes to the responder with the nonce is the request of this probe. -/
theorem Attributed.request_eq (h : w.Attributed cfg) {p : UdpPacket} {q : ProbePacket}
    {now : Instant} (hgenuine : w.Genuine cfg (.toServer p now))
    (hrequest : ProbeServer.request? cfg.hmac cfg.probeKey p.bytes = some q)
    (hnonce : q.nonce = w.client.nonce) :
    q = w.client.request ∧ cfg.Carries w.client.nonce p w.client.request := by
  unfold ProbeServer.request? at hrequest
  split at hrequest
  next q' hdecode =>
    split_ifs at hrequest with hkind
    cases hrequest
    have hcarries : cfg.Carries w.client.nonce p q := ⟨hdecode, hnonce⟩
    obtain ⟨o, ho, hsent⟩ := hgenuine q hcarries
    rcases List.mem_append.1 ho with ho | ho
    · have heq := h.fromClient o ho q hsent
      exact ⟨heq, heq ▸ hcarries⟩
    · obtain ⟨-, -, hother | ⟨hother, -⟩⟩ := h.fromServer o ho q hsent
      · rw [hkind] at hother
        cases hother
      · rw [hkind] at hother
        cases hother
  next => cases hrequest

/-- **A packet at the host of the responder.** -/
theorem Attributed.atServer (h : w.Attributed cfg) {p : UdpPacket} {now : Instant}
    (hgenuine : w.Genuine cfg (.toServer p now)) : (w.atServer cfg p now).Attributed cfg := by
  obtain ⟨limiter, heq⟩ | ⟨q, limiter, ⟨-, -, hrequest⟩, heq⟩ := atServer_cases cfg w p now
  · rw [heq]
    exact h.grow rfl rfl (List.Subset.refl _) (List.Subset.refl _)
      (fun o ho hno => absurd ho hno) fun t ht hno => absurd ht hno
  · rw [heq]
    refine h.grow rfl rfl (List.subset_cons_self ..) (List.subset_cons_self ..)
      (fun o ho hno q' hq' => ?_) fun t ht hno hnonce => ?_
    · rcases List.mem_cons.1 ho with rfl | ho
      · obtain ⟨rfl, hnonce⟩ := ProbeConfig.carries_encode.1 hq'
        obtain ⟨-, hcarries⟩ := h.request_eq hgenuine hrequest hnonce
        exact ⟨p, ⟨List.mem_cons_self, hcarries⟩, Or.inl rfl⟩
      · exact absurd ho hno
    · rcases List.mem_append.1 ht with ht | ht
      · exact absurd ht hno
      · have ht := Option.mem_toList.1 ht
        unfold ProbeServer.task? at ht
        split_ifs at ht
        cases ht
        obtain ⟨rfl, hcarries⟩ := h.request_eq hgenuine hrequest hnonce
        exact ⟨p, ⟨List.mem_cons_self, hcarries⟩, rfl⟩

/-- **A task wakes.** -/
theorem Attributed.woken (h : w.Attributed cfg) (i : ℕ) (src : Option SocketAddrV6)
    (now : Instant) : (w.woken cfg i src now).Attributed cfg := by
  obtain ⟨tasks, htasks, heq | ⟨src', t, -, ht, -, heq⟩⟩ := woken_cases cfg w i src now
  · rw [heq]
    exact h.grow rfl rfl (List.Subset.refl _) (List.Subset.refl _)
      (fun o ho hno => absurd ho hno) fun t ht hno => absurd (htasks ht) hno
  · rw [heq]
    refine h.grow rfl rfl (List.subset_cons_self ..) (List.Subset.refl _)
      (fun o ho hno q hq => ?_) fun t ht hno => absurd (htasks ht) hno
    rcases List.mem_cons.1 ho with rfl | ho
    · obtain ⟨rfl, hnonce⟩ := ProbeConfig.carries_encode.1 hq
      obtain ⟨p, hp, htarget⟩ := h.tasks t ht hnonce
      exact ⟨p, hp, Or.inr ⟨rfl, htarget⟩⟩
    · exact absurd ho hno

/-- What came to the client with the nonce goes back to an answered request. -/
theorem Attributed.expected (h : w.Attributed cfg) {input : ProbeInput} {port : UInt16}
    {kind : ProbeKind} (hgenuine : w.Genuine cfg input) (hin : w.Expected cfg port kind input)
    (hkind : kind ≠ .request) :
    ∃ p o q, w.Answered cfg p ∧ o ∈ w.fromServer ∧ cfg.Carries w.client.nonce o q ∧
      q.kind = kind ∧ (kind = .unsolicited → o.dst = w.unsolicitedTarget p) := by
  obtain ⟨p, q, rfl, -, -, hcarries, rfl⟩ := hin
  obtain ⟨o, ho, hsent⟩ := hgenuine q hcarries
  rcases List.mem_append.1 ho with ho | ho
  · exact absurd (congrArg ProbePacket.kind (h.fromClient o ho q hsent)) hkind
  · obtain ⟨p', hp', hdst⟩ := h.fromServer o ho q hsent
    refine ⟨p', o, q, hp', ho, hsent, rfl, fun hunsolicited => ?_⟩
    obtain hresponse | ⟨-, hdst⟩ := hdst
    · rw [hresponse] at hunsolicited
      cases hunsolicited
    · exact hdst

/-- A packet at the host of the client leaves everything else. -/
theorem atClient_eq (cfg : ProbeConfig) (w : ProbeNet) (p : UdpPacket) :
    w.atClient cfg p = { w with client := (w.atClient cfg p).client } := by
  unfold atClient
  split_ifs <;> rfl

/-- **Every step keeps it.** -/
theorem Attributed.step (h : w.Attributed cfg) {input : ProbeInput}
    (hgenuine : w.Genuine cfg input) : (w.step cfg input).Attributed cfg := by
  cases input with
  | deadline => exact ⟨h.fromClient, h.fromServer, h.tasks, h.solicited, h.unsolicited⟩
  | toServer p now => exact h.atServer hgenuine
  | wake i src now => exact h.woken i src now
  | serverHost p =>
      refine h.grow rfl rfl (List.subset_cons_self ..) (List.Subset.refl _)
        (fun o ho hno q hq => ?_) fun t ht hno => absurd ht hno
      rcases List.mem_cons.1 ho with rfl | ho
      · exact absurd hq (hgenuine q)
      · exact absurd ho hno
  | clientHost p =>
      refine ⟨fun o ho q hq => ?_, h.fromServer, h.tasks, h.solicited, h.unsolicited⟩
      rcases List.mem_cons.1 ho with rfl | ho
      · exact absurd hq (hgenuine q)
      · exact h.fromClient o ho q hq
  | tick ip =>
      simp only [ProbeNet.step]
      split_ifs
      · refine ⟨fun o ho q hq => ?_, h.fromServer, h.tasks, h.solicited, h.unsolicited⟩
        rcases List.mem_cons.1 ho with rfl | ho
        · exact (ProbeConfig.carries_encode.1 hq).1
        · exact h.fromClient o ho q hq
      · exact h
  | toClient p =>
      have heq : w.step cfg (.toClient p) =
          { w with client := (w.step cfg (.toClient p)).client } := atClient_eq cfg w p
      rw [heq]
      obtain hclient | hclient | ⟨hclient, hin⟩ | ⟨hclient, hin⟩ :=
        client_step cfg w (.toClient p)
      · rw [hclient]
        exact h
      · rw [hclient]
        exact ⟨h.fromClient, h.fromServer, h.tasks, h.solicited, h.unsolicited⟩
      · rw [hclient]
        obtain ⟨p', -, -, hp', -⟩ := h.expected hgenuine hin (by simp)
        exact ⟨h.fromClient, h.fromServer, h.tasks, fun _ => ⟨p', hp'⟩, h.unsolicited⟩
      · rw [hclient]
        obtain ⟨p', o, q, hp', ho, hq, hkind, hdst⟩ := h.expected hgenuine hin (by simp)
        exact ⟨h.fromClient, h.fromServer, h.tasks, h.solicited,
          fun _ => ⟨p', hp', o, ho, hdst rfl, q, hq, hkind⟩⟩

/-- The responder has answered nothing, and its host has sent nothing from its port. -/
structure Unasked (cfg : ProbeConfig) (w : ProbeNet) : Prop where
  answered : w.answered = []
  tasks : w.server.tasks = []
  silent : ∀ o ∈ w.fromServer, o.src.port ≠ cfg.probePort

/-- **Behind a wall the responder is never asked.** -/
theorem Unasked.step (h : w.Unasked cfg) (hwall : PortWall cfg.serverWall) {input : ProbeInput}
    (hown : w.ServerPorts cfg input) : (w.step cfg input).Unasked cfg := by
  cases input with
  | deadline | clientHost => exact ⟨h.answered, h.tasks, h.silent⟩
  | tick ip =>
      simp only [ProbeNet.step]
      split_ifs
      · exact ⟨h.answered, h.tasks, h.silent⟩
      · exact h
  | toClient p =>
      rw [ProbeNet.step, atClient_eq]
      exact ⟨h.answered, h.tasks, h.silent⟩
  | serverHost p => exact ⟨h.answered, h.tasks, List.forall_mem_cons.2 ⟨hown, h.silent⟩⟩
  | toServer p now =>
      rw [ProbeNet.step]
      obtain ⟨limiter, heq⟩ | ⟨q, limiter, ⟨hin, hport, -⟩, -⟩ := atServer_cases cfg w p now
      · rw [heq]
        exact ⟨h.answered, h.tasks, h.silent⟩
      · obtain ⟨o, ho, hsame⟩ := hwall _ _ hin
        exact absurd (hsame.trans hport) (h.silent o ho)
  | wake i src now =>
      rw [ProbeNet.step]
      obtain ⟨tasks, htasks, heq | ⟨src', t, -, ht, -⟩⟩ := woken_cases cfg w i src now
      · rw [heq]
        rw [h.tasks] at htasks
        exact ⟨h.answered, List.subset_nil.1 htasks, h.silent⟩
      · rw [h.tasks] at ht
        cases ht

theorem ok_of_verdict {c : ProbeClient} :
    (c.verdict = .open → c.unsolicitedOk = true) ∧
      (c.verdict = .stateful → c.solicitedOk = true) := by
  unfold ProbeClient.verdict classifyEvidence
  split_ifs with hglobal hunsolicited hsolicited
  · simp
  · exact ⟨fun _ => hunsolicited, fun h => (by cases h)⟩
  · exact ⟨fun h => (by cases h), fun _ => hsolicited⟩
  · simp

/-! ### When nothing is lost -/

/-- The packet comes to the host of the client before its time is over. -/
def Delivered (cfg : ProbeConfig) (w : ProbeNet) (inputs : List ProbeInput) (o : UdpPacket) :
    Prop :=
  ∃ v rest, Leads (step cfg) w inputs v (.toClient o :: rest) ∧ v.client.timedOut = false

/-- The task wakes after its delay and gets a socket, and what it then sends is delivered. -/
def Wakes (cfg : ProbeConfig) (w : ProbeNet) (inputs : List ProbeInput) (t : UnsolicitedTask) :
    Prop :=
  ∃ v rest i src now, Leads (step cfg) w inputs v (.wake i (some src) now :: rest) ∧
    v.server.tasks[i]? = some t ∧ t.due ≤ now ∧
    ∀ o, (v.step cfg (.wake i (some src) now)).fromServer = o :: v.fromServer →
      Delivered cfg (v.step cfg (.wake i (some src) now)) rest o

/-- The packet is a request that the client has sent. -/
def Requests (cfg : ProbeConfig) (w : ProbeNet) (p : UdpPacket) : Prop :=
  p ∈ w.fromClient ∧ p.src.port = w.client.port₁ ∧
    p.bytes = w.client.request.encode cfg.hmac cfg.probeKey

/-- **An exchange in a run**: a request of the client comes to the responder, whose wall lets it in
and whose limiter lets it pass; what the responder sends for it is delivered, and what it leaves
to a task is done and delivered. -/
def Exchanged (cfg : ProbeConfig) (w : ProbeNet) (inputs : List ProbeInput) : Prop :=
  ∃ v rest p now, Leads (step cfg) w inputs v (.toServer p now :: rest) ∧
    v.Requests cfg p ∧ cfg.serverWall v.fromServer p = true ∧ p.dst.port = cfg.probePort ∧
    (v.server.limiter.allow p.src.ip now).1 = true ∧
    (∀ o, (v.step cfg (.toServer p now)).fromServer = o :: v.fromServer →
      Delivered cfg (v.step cfg (.toServer p now)) rest o) ∧
    ∀ t, (v.step cfg (.toServer p now)).server.tasks = v.server.tasks ++ [t] →
      Wakes cfg (v.step cfg (.toServer p now)) rest t

/-- The client and its packets between two points of a run. -/
theorem later_of_leads {v : ProbeNet} {inputs rest : List ProbeInput}
    (h : Leads (step cfg) w inputs v rest) :
    Later w.client v.client ∧ w.fromClient ⊆ v.fromClient := by
  obtain ⟨done, -, rfl⟩ := h
  refine ⟨later_run cfg w done, ?_⟩
  exact run_invariant (P := fun v : ProbeNet => w.fromClient ⊆ v.fromClient)
    (fun v input h => List.Subset.trans h (fromClient_step cfg v input)) (List.Subset.refl _) done

theorem running_or_done {c : ProbeClient} (h : c.timedOut = false) :
    c.running = true ∨ c.solicitedOk = true ∧ c.unsolicitedOk = true := by
  simp only [ProbeClient.running, h]
  cases c.solicitedOk <;> cases c.unsolicitedOk <;> simp

/-- **An answer that gets through** in time is seen. -/
theorem solicitedOk_of_response {p : UdpPacket} (hwall : cfg.clientWall w.fromClient p = true)
    (hport : p.dst.port = w.client.port₁)
    (hexpects : w.client.expects cfg.hmac cfg.probeKey .response p.bytes = true)
    (htime : w.client.timedOut = false) :
    (w.step cfg (.toClient p)).client.solicitedOk = true := by
  simp only [ProbeNet.step, atClient, if_pos hwall, if_pos hport, ProbeClient.receive₁, hexpects]
  rcases running_or_done htime with hrunning | ⟨hdone, -⟩
  · simp [hrunning]
  · split_ifs
    · rfl
    · exact hdone

/-- **A packet that was not asked for and gets through** in time is seen. -/
theorem unsolicitedOk_of_unsolicited {p : UdpPacket}
    (hwall : cfg.clientWall w.fromClient p = true) (hports : w.client.port₁ ≠ w.client.port₂)
    (hport : p.dst.port = w.client.port₂)
    (hexpects : w.client.expects cfg.hmac cfg.probeKey .unsolicited p.bytes = true)
    (htime : w.client.timedOut = false) :
    (w.step cfg (.toClient p)).client.unsolicitedOk = true := by
  have hother : ¬p.dst.port = w.client.port₁ := fun h => hports (h.symm.trans hport)
  simp only [ProbeNet.step, atClient, if_pos hwall, if_neg hother, if_pos hport,
    ProbeClient.receive₂, hexpects]
  rcases running_or_done htime with hrunning | ⟨-, hdone⟩
  · simp [hrunning]
  · split_ifs
    · rfl
    · exact hdone

theorem expects_encode {c : ProbeClient} {kind : ProbeKind} {replyPort : UInt16} :
    c.expects cfg.hmac cfg.probeKey kind
      (ProbePacket.encode cfg.hmac cfg.probeKey ⟨kind, c.nonce, replyPort⟩) = true :=
  ProbeClient.expects_iff.2 ⟨_, ProbePacket.decode_take_encode .., rfl, rfl⟩

/-- The answer to a packet. -/
def response (cfg : ProbeConfig) (nonce : UInt64) (p : UdpPacket) : UdpPacket :=
  ⟨p.dst, p.src, ProbePacket.encode cfg.hmac cfg.probeKey ⟨.response, nonce, 0⟩⟩

/-- What is sent from a socket to the second port of the client, after a packet. -/
def unsolicited (cfg : ProbeConfig) (nonce : UInt64) (port₂ : UInt16) (p : UdpPacket)
    (src : SocketAddrV6) : UdpPacket :=
  ⟨src, ⟨p.src.ip, port₂, 0, p.src.scopeId⟩,
    ProbePacket.encode cfg.hmac cfg.probeKey ⟨.unsolicited, nonce, 0⟩⟩

/-- **What an exchange brings to the client**: the answer to a request that it has sent, and the
packet that was not asked for, both before its time is over. -/
theorem Exchanged.delivered {inputs : List ProbeInput} (h : Exchanged cfg w inputs)
    (hbound : w.client.port₂ ≠ 0) :
    (∃ p v rest, Leads (step cfg) w inputs v
        (.toClient (response cfg w.client.nonce p) :: rest) ∧ v.client.timedOut = false ∧
      p ∈ v.fromClient ∧ p.src.port = w.client.port₁) ∧
    ∃ p src v rest, Leads (step cfg) w inputs v
        (.toClient (unsolicited cfg w.client.nonce w.client.port₂ p src) :: rest) ∧
      v.client.timedOut = false := by
  obtain ⟨v, rest, p, now, hlead, ⟨hsent, hport₁, hbytes⟩, hwall, hport, hallow, hanswer, htask⟩ := h
  obtain ⟨hlater, -⟩ := later_of_leads hlead
  have hasked : v.Asked cfg p v.client.request := by
    refine ⟨hwall, hport, ?_⟩
    rw [hbytes, ProbeServer.request?, ProbePacket.decode_take_encode]
    rfl
  have hstep := atServer_of_asked hasked hallow
  have hspawned : ProbeServer.task? p.src v.client.request now =
      some ⟨now + unsolicitedDelay, ⟨p.src.ip, v.client.port₂, 0, p.src.scopeId⟩,
        v.client.nonce⟩ := if_pos (by rw [← hlater.port₂] at hbound; exact hbound)
  rw [hspawned] at hstep
  constructor
  · obtain ⟨v', rest', hlead', htime⟩ := hanswer (response cfg v.client.nonce p)
      (congrArg ProbeNet.fromServer hstep)
    refine ⟨p, v', rest', hlater.nonce ▸ hlead.next.trans hlead', htime, ?_,
      hport₁.trans hlater.port₁⟩
    exact (later_of_leads hlead').2 (fromClient_step cfg v _ hsent)
  · obtain ⟨v', rest', i, src, later, hlead', htasks, hdue, hdelivered⟩ := htask _
      (congrArg (fun w : ProbeNet => w.server.tasks) hstep)
    obtain ⟨v'', rest'', hlead'', htime⟩ := hdelivered
      (unsolicited cfg v.client.nonce v.client.port₂ p src) (woken_of_due htasks hdue src)
    exact ⟨p, src, v'', rest'', hlater.port₂ ▸ hlater.nonce ▸
      (hlead.next.trans hlead').next.trans hlead'', htime⟩

/-- A wall that keeps state: what comes in answers something that was sent. -/
def statefulWall : Wall := fun sent p => sent.any fun o => o.src = p.dst ∧ o.dst = p.src

theorem portWall_statefulWall : PortWall statefulWall := by
  intro sent p h
  obtain ⟨o, ho, hanswer⟩ := List.any_eq_true.1 h
  obtain ⟨hsrc, -⟩ := of_decide_eq_true hanswer
  exact ⟨o, ho, congrArg SocketAddrV6.port hsrc⟩

/-- **The packet that was not asked for** is seen at the end, if the wall lets it in. -/
theorem Exchanged.unsolicitedOk {inputs : List ProbeInput} (h : Exchanged cfg w inputs)
    (hports : w.client.port₁ ≠ w.client.port₂) (hbound : w.client.port₂ ≠ 0)
    (hwall : ∀ sent p, cfg.clientWall sent p = true) :
    (run (step cfg) w inputs).client.unsolicitedOk = true := by
  obtain ⟨-, p, src, v, rest, hlead, htime⟩ := h.delivered hbound
  obtain ⟨hlater, -⟩ := later_of_leads hlead
  have hseen : (v.step cfg (.toClient (unsolicited cfg w.client.nonce w.client.port₂ p
      src))).client.unsolicitedOk = true := by
    refine unsolicitedOk_of_unsolicited (hwall _ _) ?_ hlater.port₂.symm ?_ htime
    · rw [hlater.port₁, hlater.port₂]
      exact hports
    · rw [← hlater.nonce]
      exact expects_encode
  rw [← hlead.next.run_eq]
  exact (later_run cfg _ rest).unsolicited hseen

/-- **The answer** is seen at the end, behind a wall that lets in answers. -/
theorem Exchanged.solicitedOk {inputs : List ProbeInput} (h : Exchanged cfg w inputs)
    (hbound : w.client.port₂ ≠ 0) (hwall : cfg.clientWall = statefulWall) :
    (run (step cfg) w inputs).client.solicitedOk = true := by
  obtain ⟨⟨p, v, rest, hlead, htime, hsent, hport⟩, -⟩ := h.delivered hbound
  obtain ⟨hlater, -⟩ := later_of_leads hlead
  have hanswer : cfg.clientWall v.fromClient (response cfg w.client.nonce p) = true := by
    rw [hwall]
    exact List.any_eq_true.2 ⟨p, hsent, by simp [response]⟩
  have hseen : (v.step cfg (.toClient
      (response cfg w.client.nonce p))).client.solicitedOk = true := by
    refine solicitedOk_of_response hanswer (hport.trans hlater.port₁.symm) ?_ htime
    rw [← hlater.nonce]
    exact expects_encode
  rw [← hlead.next.run_eq]
  exact (later_run cfg _ rest).solicited hseen

/-- **Behind a wall that lets in nothing** nothing is seen. -/
theorem blind_run (hwall : ∀ sent p, cfg.clientWall sent p = false)
    (hblind : w.client.solicitedOk = false ∧ w.client.unsolicitedOk = false)
    (inputs : List ProbeInput) :
    (run (step cfg) w inputs).client.solicitedOk = false ∧
      (run (step cfg) w inputs).client.unsolicitedOk = false := by
  refine run_invariant (P := fun v : ProbeNet =>
    v.client.solicitedOk = false ∧ v.client.unsolicitedOk = false) (fun v input h => ?_) hblind
    inputs
  obtain hclient | hclient | ⟨-, p, q, -, hin, -⟩ | ⟨-, p, q, -, hin, -⟩ := client_step cfg v input
  · rw [hclient]
    exact h
  · rw [hclient]
    exact h
  · rw [hwall] at hin
    cases hin
  · rw [hwall] at hin
    cases hin

/-- What the client sends may come to the responder, and what that sends to the client. -/
theorem genuine_of_mem {p : UdpPacket} (h : p ∈ w.fromClient ++ w.fromServer) (now : Instant) :
    w.Genuine cfg (.toClient p) ∧ w.Genuine cfg (.toServer p now) :=
  ⟨fun _ hq => ⟨p, h, hq⟩, fun _ hq => ⟨p, h, hq⟩⟩

/-- A node behind a wall that keeps state asks one that can be reached. -/
def plainProbe : ProbeConfig where
  hmac key _ := key
  probeKey := ⟨List.replicate 32 1, rfl⟩
  probePort := 4194
  clientWall := statefulWall
  serverWall _ _ := true

/-- The start of a probe from port 50000, with 50001 as the second port. -/
def plainProbeStart : ProbeNet :=
  start (.start ⟨plainAddr, 4194, 0, 0⟩ [plainAddr] 50000 50001 7) .new

/-- Its request. -/
def plainProbeRequest : UdpPacket :=
  ⟨⟨plainAddr, 50000, 0, 0⟩, ⟨plainAddr, 4194, 0, 0⟩,
    ProbePacket.encode plainProbe.hmac plainProbe.probeKey ⟨.request, 7, 50001⟩⟩

/-- The first request is lost; the second is answered, and the packet that was not asked for
follows from port 50002. -/
def plainProbeRun : List ProbeInput :=
  [.tick plainAddr, .tick plainAddr, .toServer plainProbeRequest 0,
    .toClient (response plainProbe 7 plainProbeRequest),
    .wake 0 (some ⟨plainAddr, 50002, 0, 0⟩) unsolicitedDelay,
    .toClient (unsolicited plainProbe 7 50001 plainProbeRequest ⟨plainAddr, 50002, 0, 0⟩),
    .deadline]

/-! ### The verdict -/

/-- **No node behind a wall is told that it is open.**  If the wall lets in only what is for a
port that something was sent from, then in no run is the verdict `open`: whoever sends what,
with whatever key, and whatever else the host sends from other ports. -/
theorem never_open (hwall : PortWall cfg.clientWall) (target : SocketAddrV6)
    (globalAddresses : List Ipv6Addr) {port₁ port₂ : UInt16} (hports : port₁ ≠ port₂)
    (nonce : UInt64) (limiter : RateLimiter) {inputs : List ProbeInput}
    (hown : Along (step cfg) OwnPorts
      (start (.start target globalAddresses port₁ port₂ nonce) limiter) inputs) :
    (run (step cfg) (start (.start target globalAddresses port₁ port₂ nonce) limiter)
      inputs).client.verdict ≠ .open := by
  have hquiet : (start (.start target globalAddresses port₁ port₂ nonce) limiter).Quiet :=
    ⟨hports, fun o ho => (by cases ho), rfl⟩
  exact verdict_ne_open (hown.invariant (fun _ _ h hi => h.step hwall hi) hquiet).unseen

/-- The probe behind the wall that keeps state. -/
theorem never_open_plain :
    (run (step plainProbe) plainProbeStart plainProbeRun).client.verdict ≠ .open :=
  never_open portWall_statefulWall _ _ (by decide) _ _ (by decide +kernel)

/-- **What a verdict goes back to.**  In every run: `open` and `stateful` say that the responder
has answered the request of this probe, and `open` that it has then sent a packet that was not
asked for to the second port, at the address the request came from.  So no verdict but
`noIpv6` and `blocked` is reached if a wall stands before the responder, whatever its host sends
from other ports. -/
theorem evidence_attributed (cfg : ProbeConfig) (target : SocketAddrV6)
    (globalAddresses : List Ipv6Addr) (port₁ port₂ : UInt16) (nonce : UInt64)
    (limiter : RateLimiter) {inputs : List ProbeInput}
    (hgenuine : Along (step cfg) (Genuine cfg)
      (start (.start target globalAddresses port₁ port₂ nonce) limiter) inputs) :
    let w := run (step cfg) (start (.start target globalAddresses port₁ port₂ nonce) limiter) inputs
    let request : ProbePacket := ⟨.request, nonce, port₂⟩
    (w.client.verdict = .stateful → ∃ p ∈ w.answered, cfg.Carries nonce p request) ∧
    (w.client.verdict = .open → ∃ p ∈ w.answered, cfg.Carries nonce p request ∧
      ∃ o ∈ w.fromServer, o.dst = ⟨p.src.ip, port₂, 0, p.src.scopeId⟩ ∧
        ∃ q, cfg.Carries nonce o q ∧ q.kind = .unsolicited) ∧
    (PortWall cfg.serverWall → Along (step cfg) (ServerPorts cfg)
        (start (.start target globalAddresses port₁ port₂ nonce) limiter) inputs →
      w.client.verdict = .noIpv6 ∨ w.client.verdict = .blocked) := by
  intro w request
  have hw : w.Attributed cfg := hgenuine.invariant (fun _ _ h hi => h.step hi)
    (attributed_start target globalAddresses port₁ port₂ nonce limiter)
  have hlater := later_run cfg
    (start (.start target globalAddresses port₁ port₂ nonce) limiter) inputs
  have hport : w.client.port₂ = port₂ := hlater.port₂
  have hnonce : w.client.nonce = nonce := hlater.nonce
  have hrequest : w.client.request = request := by rw [ProbeClient.request, hport, hnonce]
  have hanswered : ∀ {p}, w.Answered cfg p → p ∈ w.answered ∧ cfg.Carries nonce p request := by
    rintro p ⟨hp, hcarries⟩
    rw [hrequest, hnonce] at hcarries
    exact ⟨hp, hcarries⟩
  obtain ⟨hopen, hstateful⟩ : (w.client.verdict = .open → _) ∧ (w.client.verdict = .stateful → _) :=
    ok_of_verdict
  refine ⟨fun h => ?_, fun h => ?_, fun hwall hown => ?_⟩
  · obtain ⟨p, hp⟩ := hw.solicited (hstateful h)
    exact ⟨p, hanswered hp⟩
  · obtain ⟨p, hp, o, ho, hdst, hq⟩ := hw.unsolicited (hopen h)
    rw [unsolicitedTarget, hport] at hdst
    rw [hnonce] at hq
    exact ⟨p, (hanswered hp).1, (hanswered hp).2, o, ho, hdst, hq⟩
  · have hunasked : w.Unasked cfg := hown.invariant (fun _ _ h hi => h.step hwall hi)
      ⟨rfl, rfl, fun o ho => (by cases ho)⟩
    have hno : ∀ p, ¬w.Answered cfg p := by
      rintro p ⟨hp, -⟩
      rw [hunasked.answered] at hp
      cases hp
    cases hverdict : w.client.verdict with
    | noIpv6 => exact Or.inl rfl
    | blocked => exact Or.inr rfl
    | stateful =>
        obtain ⟨p, hp⟩ := hw.solicited (hstateful hverdict)
        exact absurd hp (hno p)
    | «open» =>
        obtain ⟨p, hp, -⟩ := hw.unsolicited (hopen hverdict)
        exact absurd hp (hno p)

/-- The answer of the probe goes back to its request. -/
theorem evidence_attributed_plain :
    let w := run (step plainProbe) plainProbeStart plainProbeRun
    w.client.verdict = .stateful ∧
      ∃ p ∈ w.answered, plainProbe.Carries 7 p ⟨.request, 7, 50001⟩ := by
  have hverdict : (run (step plainProbe) plainProbeStart plainProbeRun).client.verdict =
      .stateful := by decide +kernel
  have hgenuine : Along (step plainProbe) (Genuine plainProbe) plainProbeStart plainProbeRun :=
    ⟨trivial, trivial, (genuine_of_mem (by decide +kernel) 0).2,
      (genuine_of_mem (by decide +kernel) 0).1, trivial, (genuine_of_mem (by decide +kernel) 0).1,
      trivial, trivial⟩
  exact ⟨hverdict, (evidence_attributed plainProbe _ _ _ _ _ _ hgenuine).1 hverdict⟩

/-- **The verdict is what the wall is.**  In every run with an exchange, whatever requests are
repeated, whatever else comes, is forged or is lost and however the run goes on: a node with a
global address is told `open` behind a wall that lets in everything, `stateful` behind one that
lets in answers if nothing else sends from the second port, and `blocked` behind one that lets in
nothing; without a global address it is told that. -/
theorem probe_classifies (target : SocketAddrV6) (globalAddresses : List Ipv6Addr)
    {port₁ port₂ : UInt16} (hports : port₁ ≠ port₂) (hbound : port₂ ≠ 0) (nonce : UInt64)
    (limiter : RateLimiter) {inputs : List ProbeInput}
    (hexchanged : Exchanged cfg
      (start (.start target globalAddresses port₁ port₂ nonce) limiter) inputs) :
    let verdict := (run (step cfg)
      (start (.start target globalAddresses port₁ port₂ nonce) limiter) inputs).client.verdict
    (globalAddresses = [] → verdict = .noIpv6) ∧
    (globalAddresses ≠ [] →
      (cfg.clientWall = (fun _ _ => true) → verdict = .open) ∧
      (cfg.clientWall = statefulWall → Along (step cfg) OwnPorts
          (start (.start target globalAddresses port₁ port₂ nonce) limiter) inputs →
        verdict = .stateful) ∧
      (cfg.clientWall = (fun _ _ => false) → verdict = .blocked)) := by
  intro verdict
  have hlater := later_run cfg
    (start (.start target globalAddresses port₁ port₂ nonce) limiter) inputs
  have hverdict : verdict = classifyEvidence ⟨!globalAddresses.isEmpty,
      (run (step cfg) (start (.start target globalAddresses port₁ port₂ nonce) limiter)
        inputs).client.solicitedOk,
      (run (step cfg) (start (.start target globalAddresses port₁ port₂ nonce) limiter)
        inputs).client.unsolicitedOk⟩ := verdict_of_addresses hlater.addresses
  refine ⟨fun hnone => ?_, fun hsome => ⟨fun hwall => ?_, fun hwall hown => ?_, fun hwall => ?_⟩⟩
  · rw [hverdict, hnone]
    rfl
  all_goals
    have hglobal : globalAddresses.isEmpty = false := by simpa using hsome
    rw [hverdict, hglobal]
  · rw [hexchanged.unsolicitedOk hports hbound fun _ _ => by rw [hwall]]
    rfl
  · have hquiet : (start (.start target globalAddresses port₁ port₂ nonce) limiter).Quiet :=
      ⟨hports, fun o ho => (by cases ho), rfl⟩
    have hstateful : PortWall cfg.clientWall := by
      rw [hwall]
      exact portWall_statefulWall
    rw [hexchanged.solicitedOk hbound hwall,
      (hown.invariant (fun _ _ h hi => h.step hstateful hi) hquiet).unseen]
    rfl
  · obtain ⟨hsolicited, hunsolicited⟩ := blind_run
      (w := start (.start target globalAddresses port₁ port₂ nonce) limiter)
      (fun _ _ => by rw [hwall]) ⟨rfl, rfl⟩ inputs
    rw [hsolicited, hunsolicited]
    rfl

/-- In this run the client is told `stateful`. -/
theorem probe_classifies_plain :
    (run (step plainProbe) plainProbeStart plainProbeRun).client.verdict = .stateful := by
  have hexchanged : Exchanged plainProbe plainProbeStart plainProbeRun := by
    refine ⟨_, _, plainProbeRequest, 0, ⟨plainProbeRun.take 2, rfl, rfl⟩,
      ⟨by decide +kernel, rfl, rfl⟩, rfl, rfl, by decide +kernel, fun o ho => ?_, fun t ht => ?_⟩
    · obtain ⟨rfl, -⟩ := List.cons.inj ho
      exact ⟨_, _, ⟨[], rfl, rfl⟩, by decide +kernel⟩
    · obtain rfl := List.singleton_inj.1 (ht : [_] = [t])
      refine ⟨_, _, 0, ⟨plainAddr, 50002, 0, 0⟩, unsolicitedDelay,
        ⟨[.toClient (response plainProbe 7 plainProbeRequest)], rfl, rfl⟩, rfl, by decide,
        fun o ho => ?_⟩
      obtain ⟨rfl, -⟩ := List.cons.inj ho
      exact ⟨_, _, ⟨[], rfl, rfl⟩, by decide +kernel⟩
  exact ((probe_classifies _ _ (by decide) (by decide) _ _ hexchanged).2 (by decide)).2.1 rfl
    (by decide +kernel)

end ProbeNet

end Hextet

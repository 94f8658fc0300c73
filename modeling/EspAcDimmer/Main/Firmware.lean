import EspAcDimmer.Main.TempMsg
import EspAcDimmer.Netio.Clients
import EspAcDimmer.Netio.Life

/-! # The tasks of the firmware

`udp_srv_task` of `main.cpp`, the event group of `Events.cpp` that it waits for, the handler of
`Wifi.cpp` that sets and clears its bit, and the loop of `app_main`: in any order. A step is one
event, one thing that `udp_srv_task` does, or one iteration of `app_main`, which takes its turn when
it comes to `sendData`: nothing before that is shared with another task.
-/

namespace EspAcDimmer

open Lts SearchTree

/-! ## Events -/

/-- `EventBits_t`. -/
abbrev EventBits := BitVec 32

namespace Events

/-- `WIFI_CONNECTED_BIT`, which is `BIT0`. -/
def wifiConnectedBit : EventBits := 1

def setBit (group bit : EventBits) : EventBits := group ||| bit

def clearBit (group bit : EventBits) : EventBits := group &&& ~~~bit

/-- `wait_for` returns when all of these bits are set, and clears none. -/
def waitFor (group bits : EventBits) : Bool := group &&& bits = bits

end Events

/-- `system_event_t`, as far as `handle_event` tells events apart. -/
inductive SystemEvent where
  | staStart
  | staGotIp
  /-- Whether the reason is `WIFI_REASON_BASIC_RATE_NOT_SUPPORT`. -/
  | staDisconnected (basicRateNotSupport : Bool)
  | apStaConnected
  | apStaDisconnected
  | other
deriving DecidableEq

/-- What `handle_event` asks of the driver. -/
inductive WifiCall where
  | connect
  /-- To all of 802.11 b, g and n. -/
  | setProtocol
deriving DecidableEq

/-- `wifi::handle_event`. -/
def handleEvent (group : EventBits) : SystemEvent → List WifiCall × EventBits
  | .staStart => ([.connect], group)
  | .staGotIp => ([], Events.setBit group Events.wifiConnectedBit)
  | .staDisconnected basicRateNotSupport =>
    ((if basicRateNotSupport then [.setProtocol] else []) ++ [.connect],
      Events.clearBit group Events.wifiConnectedBit)
  | .apStaConnected | .apStaDisconnected | .other => ([], group)

/-! ## The tasks -/

/-- Where `udp_srv_task` stands. -/
inductive SrvTask where
  /-- In `wait_wifi_connection`. -/
  | waiting
  /-- In front of the `socket` of `run`. -/
  | connected
  /-- In the loop of `run`. -/
  | serving
  /-- In the delay behind `run`. -/
  | delaying
deriving DecidableEq

structure Firmware (β : Type) where
  poller : Poller β
  group : EventBits := 0
  wifiCalls : List WifiCall := []
  task : SrvTask := .waiting
  srv : UdpSrv := {}
  /-- The datagrams that `sendData` got rid of. -/
  net : List (ClientInfo × List (BitVec 8)) := []

inductive FirmwareLbl where
  | event (event : SystemEvent)
  /-- `wait_wifi_connection` returns. -/
  | connected
  /-- `socket` returns this. -/
  | run (sock : Int)
  | receive (received : Received) (currTime sended : Int)
  | delayed
  /-- An iteration of `app_main`: what was in the memory of `m_data`, and what `sendto` returns. -/
  | poll (mData : Scratchpad) (sendto : Nat → Int)

section Step

variable {β : Type} (w : Wire β) (vTaskDelay : Nat → β → β)
  (rebalance : BinaryTree ClientInfo → BinaryTree ClientInfo)

/-- The message that an iteration of `app_main` hands to `sendData`, if it gets there. -/
def handedOn (s s' : Poller β) : Option TempMsg := s'.sent[s.sent.length]?

/-- The step of the server, if the label is one. -/
def Firmware.srvLbl (s : Firmware β) : FirmwareLbl → Option UdpLbl
  | .run sock => some (.run sock)
  | .receive received currTime sended => some (.receive received currTime sended)
  | .poll mData sendto =>
    ((s.poller.poll w vTaskDelay mData).bind (handedOn s.poller)).map fun _ => .sendData sendto
  | .event _ | .connected | .delayed => none

/-- `sendData` on behalf of `app_main`. -/
def Firmware.send (s : Firmware β) (sendto : Nat → Int) : Option TempMsg → Firmware β
  | none => s
  | some msg =>
    let (_, infos, srv) := s.srv.sendData sendto
    { s with srv := srv, net := s.net ++ infos.map fun info => (info, msg.bytes) }

/-- `run` goes on, or returns to `udp_srv_task`. -/
def Firmware.serve (s : Firmware β) (srv : UdpSrv) : Firmware β :=
  { s with srv := srv, task := if srv.running then .serving else .delaying }

def Firmware.step (s : Firmware β) : FirmwareLbl → Option (Firmware β)
  | .event event =>
    let (calls, group) := handleEvent s.group event
    some { s with group := group, wifiCalls := s.wifiCalls ++ calls }
  | .connected =>
    if s.task = .waiting ∧ Events.waitFor s.group Events.wifiConnectedBit then
      some { s with task := .connected }
    else none
  | .run sock =>
    if s.task = .connected then (s.srv.step rebalance (.run sock)).map s.serve else none
  | .receive received currTime sended =>
    if s.task = .serving then
      (s.srv.step rebalance (.receive received currTime sended)).map s.serve
    else none
  | .delayed => if s.task = .delaying then some { s with task := .waiting } else none
  | .poll mData sendto =>
    (s.poller.poll w vTaskDelay mData).map fun poller =>
      { s with poller := poller }.send sendto (handedOn s.poller poller)

/-- With nothing but the bus there, whatever its state. -/
def Firmware.powerOn (ow : OneWire) (bus : β) : Firmware β := { poller := ⟨ow, bus, []⟩ }

/-- The steps of the server in a run of the firmware. -/
def Firmware.srvSteps (tr : List (Firmware β × FirmwareLbl)) : List (UdpSrv × UdpLbl) :=
  tr.filterMap fun p => (p.1.srvLbl w vTaskDelay p.2).map fun l => (p.1.srv, l)

end Step

variable {β : Type} {w : Wire β} {vTaskDelay : Nat → β → β}
  {rebalance : BinaryTree ClientInfo → BinaryTree ClientInfo} {s s' : Firmware β}
  {l : FirmwareLbl} {tr tr' : List (Firmware β × FirmwareLbl)} {ow : OneWire} {bus : β}

/-! ## The server in the firmware -/

namespace Firmware

/-- A step of the firmware is a step of the server, or leaves it alone. -/
theorem step_srv (hstep : s.step w vTaskDelay rebalance l = some s') :
    match s.srvLbl w vTaskDelay l with
    | none => s'.srv = s.srv
    | some l' => s.srv.step rebalance l' = some s'.srv := by
  cases l with
  | event event =>
    obtain rfl := Option.some.inj hstep
    rfl
  | connected =>
    simp only [step, Option.ite_none_right_eq_some, Option.some.injEq] at hstep
    rcases hstep with ⟨-, rfl⟩
    rfl
  | run sock =>
    simp only [step, Option.ite_none_right_eq_some] at hstep
    rcases Option.map_eq_some_iff.mp hstep.2 with ⟨srv, hsrv, rfl⟩
    exact hsrv
  | receive received currTime sended =>
    simp only [step, Option.ite_none_right_eq_some] at hstep
    rcases Option.map_eq_some_iff.mp hstep.2 with ⟨srv, hsrv, rfl⟩
    exact hsrv
  | delayed =>
    simp only [step, Option.ite_none_right_eq_some, Option.some.injEq] at hstep
    rcases hstep with ⟨-, rfl⟩
    rfl
  | poll mData sendto =>
    rcases Option.map_eq_some_iff.mp hstep with ⟨poller, hpoll, rfl⟩
    simp only [srvLbl, hpoll, Option.bind_some]
    cases handedOn s.poller poller with
    | none => rfl
    | some msg => rfl

/-- The last step counts if it is one of the server. -/
theorem srvSteps_snoc : srvSteps w vTaskDelay (tr ++ [(s, l)]) = srvSteps w vTaskDelay tr ++
    ((s.srvLbl w vTaskDelay l).map fun l' => (s.srv, l')).toList := by
  unfold srvSteps
  rw [List.filterMap_append]
  cases h : s.srvLbl w vTaskDelay l with
  | none => simp [h]
  | some l' => simp [h]

/-- Run lemma: what the server does in a run of the firmware is a run of the server. -/
theorem run_srv {s₀ : Firmware β} (hrun : Run (step w vTaskDelay rebalance) s₀ tr s) :
    Run (UdpSrv.step rebalance) s₀.srv (srvSteps w vTaskDelay tr) s.srv := by
  induction hrun with
  | nil => exact .nil
  | @snoc t t' tr l _ hs ih =>
    have hsrv := step_srv hs
    rw [srvSteps_snoc]
    cases hl : t.srvLbl w vTaskDelay l with
    | none =>
      simp only [hl] at hsrv ⊢
      rw [hsrv]
      simpa using ih
    | some l' =>
      simp only [hl] at hsrv ⊢
      exact ih.snoc hsrv

/-! ## What is sent, and to whom -/

/-- Only who announced itself becomes a client. -/
theorem mem_announced {srv : UdpSrv} {steps : List (UdpSrv × UdpLbl)}
    (hrebalance : ∀ t, inorder (rebalance t) = inorder t)
    (hrun : Run (UdpSrv.step rebalance) {} steps srv) (hok : EveryStep RecvSucceeds steps)
    {info : ClientInfo} (hinfo : info ∈ inorder srv.clients) : info ∈ announced steps := by
  induction hrun with
  | nil => simp [inorder] at hinfo
  | @snoc t t' steps l _ hs ih =>
    rcases everyStep_snoc.mp hok with ⟨hpast, hlast⟩
    have happend : announced (steps ++ [(t, l)]) = announced steps ++ l.announces.toList := by
      simp only [announced, List.filterMap_append]
      cases h : l.announces <;> simp [h]
    rw [clients_of_step hlast hs] at hinfo
    rw [happend]
    cases hl : l.announces with
    | none =>
      simp only [hl] at hinfo
      simp [ih hpast hinfo]
    | some info' =>
      simp only [hl] at hinfo
      rcases mem_of_emplace hrebalance hinfo with rfl | hold
      · simp
      · simp [ih hpast hold]

/-- The loop of `sendData` stops at the first endpoint that is not sent its copy. -/
theorem sendLoop_isPrefix (sendto : Nat → Int) (infos : List ClientInfo) (i : Nat) :
    (UdpSrv.sendLoop sendto i infos).2 <+: infos := by
  induction infos generalizing i with
  | nil => exact List.prefix_rfl
  | cons info infos ih =>
    simp only [UdpSrv.sendLoop]
    split
    · exact List.nil_prefix
    · exact List.prefix_cons_inj info |>.mpr (ih (i + 1))

/-- So `sendData` gets to a first part of the clients. -/
theorem sendData_isPrefix (srv : UdpSrv) (sendto : Nat → Int) :
    (srv.sendData sendto).2.1 <+: inorder srv.clients := by
  unfold UdpSrv.sendData
  split
  · exact List.nil_prefix
  · exact sendLoop_isPrefix sendto _ 0

/-- What the firmware has sent: readings, to endpoints that announced themselves. -/
structure Reported (steps : List (UdpSrv × UdpLbl)) (s : Firmware β) : Prop where
  checked : ∀ msg ∈ s.poller.sent, Poller.Checked msg
  sent : ∀ p ∈ s.net, p.1 ∈ announced steps ∧ ∃ msg ∈ s.poller.sent, p.2 = msg.bytes

/-- No other step touches what this is about. -/
theorem Reported.frame {steps : List (UdpSrv × UdpLbl)} (h : Reported steps s)
    (hpoller : s'.poller = s.poller) (hnet : s'.net = s.net) : Reported steps s' :=
  ⟨by rw [hpoller]; exact h.checked, by rw [hpoller, hnet]; exact h.sent⟩

/-- More steps announce more endpoints. -/
theorem Reported.mono {steps more : List (UdpSrv × UdpLbl)} (h : Reported steps s) :
    Reported (steps ++ more) s := by
  refine ⟨h.checked, ?_⟩
  intro p hp
  rcases h.sent p hp with ⟨hto, hmsg⟩
  refine ⟨?_, hmsg⟩
  unfold announced at hto ⊢
  rw [List.filterMap_append]
  exact List.mem_append_left _ hto

/-- Step lemma for `app_main`: it adds a reading to its messages, and sends that. -/
theorem Reported.poll {steps : List (UdpSrv × UdpLbl)} {mData : Scratchpad} {sendto : Nat → Int}
    {poller : Poller β} (h : Reported steps s)
    (hclients : ∀ info ∈ inorder s.srv.clients, info ∈ announced steps)
    (hpoll : s.poller.poll w vTaskDelay mData = some poller) :
    Reported steps ({ s with poller := poller }.send sendto (handedOn s.poller poller)) := by
  have hchecked := Poller.poll_checked hpoll h.checked
  have hkept : ∀ msg ∈ s.poller.sent, msg ∈ poller.sent := by
    intro msg hmsg
    rcases Poller.poll_sent hpoll with heq | ⟨new, -, heq⟩ <;> simp [heq, hmsg]
  have hold : ∀ p ∈ s.net, p.1 ∈ announced steps ∧ ∃ msg ∈ poller.sent, p.2 = msg.bytes := by
    intro p hp
    rcases h.sent p hp with ⟨hto, msg, hmsg, hbytes⟩
    exact ⟨hto, msg, hkept msg hmsg, hbytes⟩
  cases hnew : handedOn s.poller poller with
  | none => exact ⟨hchecked, hold⟩
  | some msg =>
    refine ⟨hchecked, ?_⟩
    intro p hp
    rcases List.mem_append.mp hp with hp | hp
    · exact hold p hp
    · rcases List.mem_map.mp hp with ⟨info, hinfo, rfl⟩
      exact ⟨hclients info ((sendData_isPrefix s.srv sendto).subset hinfo), msg,
        List.mem_of_getElem? hnew, rfl⟩

/-- Run lemma: whatever the order of the tasks, only readings are sent. -/
theorem reported (hrebalance : ∀ t, inorder (rebalance t) = inorder t)
    (hrun : Run (step w vTaskDelay rebalance) (powerOn ow bus) tr s)
    (hok : EveryStep RecvSucceeds (srvSteps w vTaskDelay tr)) :
    Reported (srvSteps w vTaskDelay tr) s := by
  induction hrun with
  | nil => exact ⟨by simp [powerOn], by simp [powerOn]⟩
  | @snoc t t' tr l hr hs ih =>
    rw [srvSteps_snoc] at hok ⊢
    have hpast : EveryStep RecvSucceeds (srvSteps w vTaskDelay tr) :=
      fun p hp => hok p (List.mem_append_left _ hp)
    have h := ih hpast
    cases l with
    | event event =>
      obtain rfl := Option.some.inj hs
      exact h.mono.frame rfl rfl
    | connected =>
      simp only [step, Option.ite_none_right_eq_some, Option.some.injEq] at hs
      rcases hs with ⟨-, rfl⟩
      exact h.mono.frame rfl rfl
    | run sock =>
      simp only [step, Option.ite_none_right_eq_some] at hs
      rcases Option.map_eq_some_iff.mp hs.2 with ⟨srv, -, rfl⟩
      exact h.mono.frame rfl rfl
    | receive received currTime sended =>
      simp only [step, Option.ite_none_right_eq_some] at hs
      rcases Option.map_eq_some_iff.mp hs.2 with ⟨srv, -, rfl⟩
      exact h.mono.frame rfl rfl
    | delayed =>
      simp only [step, Option.ite_none_right_eq_some, Option.some.injEq] at hs
      rcases hs with ⟨-, rfl⟩
      exact h.mono.frame rfl rfl
    | poll mData sendto =>
      rcases Option.map_eq_some_iff.mp hs with ⟨poller, hpoll, rfl⟩
      have hclients : ∀ info ∈ inorder t.srv.clients, info ∈ announced (srvSteps w vTaskDelay tr) :=
        fun info hinfo => mem_announced hrebalance (run_srv hr) hpast hinfo
      exact (h.poll hclients hpoll).mono

/-- Whatever is on the wire and in whatever order the tasks run: if no receive fails, what leaves
the device are readings with the right checksums, which no receiver takes for a message with an id,
and they go to endpoints that announced themselves only. -/
theorem datagrams_checked (hrebalance : ∀ t, inorder (rebalance t) = inorder t)
    (hrun : Run (step w vTaskDelay rebalance) (powerOn ow bus) tr s)
    (hok : EveryStep RecvSucceeds (srvSteps w vTaskDelay tr)) :
    ∀ p ∈ s.net, p.1 ∈ announced (srvSteps w vTaskDelay tr) ∧
      ∃ msg ∈ s.poller.sent, Poller.Checked msg ∧ msg.ReadFrom p.2 := by
  intro p hp
  have h := reported hrebalance hrun hok
  rcases h.sent p hp with ⟨hto, msg, hmsg, hbytes⟩
  have hchecked := h.checked msg hmsg
  rw [hbytes]
  exact ⟨hto, msg, hmsg, hchecked, hchecked.readFrom⟩

/-- A wire that answers with these bits. -/
def scripted : Wire (List Bool) where
  reset bits := (true, bits)
  writeBit bits _ := bits
  readBit bits := (bits.headD true, bits.tail)

/-- A search that finds one thermometer, and its scratchpad. -/
def oneReading : List Bool :=
  ((List.range 64).flatMap fun k =>
      [SensorBus.thermometer.romData.bit k, !SensorBus.thermometer.romData.bit k]) ++
    (List.range 72).map ((SensorBus.poweredOn.sensor SensorBus.thermometer.romData).result 0).bit

def oneReport : List FirmwareLbl :=
  [.event .staStart, .event .staGotIp, .connected, .run 3, .receive (some greeting) 0 8,
    .poll (fun _ => 0) fun _ => 12]

theorem oneReport_enabled : (exec (step scripted (fun _ bits => bits) id)
    (powerOn (OneWire.targetSearch 0).resetSearch oneReading) oneReport).isSome = true := by
  decide +kernel

/-- A greeting, and the reading that goes to whom it is from. -/
theorem datagrams_checked_greeting : (∀ t, inorder (id t : BinaryTree ClientInfo) = inorder t) ∧
    ∃ tr s, Run (step scripted (fun _ bits => bits) id)
        (powerOn (OneWire.targetSearch 0).resetSearch oneReading) tr s ∧
      EveryStep RecvSucceeds (srvSteps scripted (fun _ bits => bits) tr) ∧
      s.net.map Prod.fst = [greeting.sender] ∧
      ∀ p ∈ s.net, p.1 ∈ announced (srvSteps scripted (fun _ bits => bits) tr) ∧
        ∃ msg ∈ s.poller.sent, Poller.Checked msg ∧ msg.ReadFrom p.2 := by
  have hrun := run_get (step scripted (fun _ bits => bits) id)
    (powerOn (OneWire.targetSearch 0).resetSearch oneReading) oneReport oneReport_enabled
  refine ⟨fun _ => rfl, _, _, hrun, by decide +kernel, by decide +kernel, ?_⟩
  exact datagrams_checked (fun _ => rfl) hrun (by decide +kernel)

/-! ## A server that is dead -/

/-- `udp_srv_task` is in the loop of `run` while the server is. -/
def Placed (s : Firmware β) : Prop := s.task = .serving ↔ s.srv.running = true

/-- `run` leaves its loop when the server does. -/
theorem serve_placed (srv : UdpSrv) : (s.serve srv).Placed := by
  unfold Placed serve
  simp only
  split <;> simp_all

/-- Step lemma: only `run` moves the task into the loop or out of it. -/
theorem step_placed (h : s.Placed) (hstep : s.step w vTaskDelay rebalance l = some s') :
    s'.Placed := by
  unfold Placed at h
  cases l with
  | event event =>
    obtain rfl := Option.some.inj hstep
    exact h
  | connected =>
    simp only [step, Option.ite_none_right_eq_some, Option.some.injEq] at hstep
    rcases hstep with ⟨⟨htask, -⟩, rfl⟩
    rw [htask] at h
    simpa [Placed] using h
  | run sock =>
    simp only [step, Option.ite_none_right_eq_some] at hstep
    rcases Option.map_eq_some_iff.mp hstep.2 with ⟨srv, -, rfl⟩
    exact serve_placed srv
  | receive received currTime sended =>
    simp only [step, Option.ite_none_right_eq_some] at hstep
    rcases Option.map_eq_some_iff.mp hstep.2 with ⟨srv, -, rfl⟩
    exact serve_placed srv
  | delayed =>
    simp only [step, Option.ite_none_right_eq_some, Option.some.injEq] at hstep
    rcases hstep with ⟨htask, rfl⟩
    rw [htask] at h
    simpa [Placed] using h
  | poll mData sendto =>
    rcases Option.map_eq_some_iff.mp hstep with ⟨poller, -, rfl⟩
    cases handedOn s.poller poller with
    | none => exact h
    | some msg =>
      unfold Placed send
      simp only [UdpSrv.sendData_running]
      exact h

/-- Run lemma. -/
theorem placed (hrun : Run (step w vTaskDelay rebalance) (powerOn ow bus) tr s) : s.Placed :=
  hrun.invariant (I := Placed) (C := fun _ _ => True) (by simp [Placed, powerOn])
    (fun _ _ _ h _ hs => step_placed h hs) everyStep_true

/-- The server can still be brought to life. -/
def Revives (w : Wire β) (vTaskDelay : Nat → β → β)
    (rebalance : BinaryTree ClientInfo → BinaryTree ClientInfo) (s : Firmware β) : Prop :=
  ∃ tr s', Run (step w vTaskDelay rebalance) s tr s' ∧
    EveryStep UdpSrv.ClosedFails (srvSteps w vTaskDelay tr) ∧ s'.srv.Live

/-- A step that is no receive may come in front. -/
theorem Revives.of_step (hstep : s.step w vTaskDelay rebalance l = some s')
    (hl : ∀ l', s.srvLbl w vTaskDelay l = some l' → ∃ sock, l' = .run sock)
    (h : Revives w vTaskDelay rebalance s') : Revives w vTaskDelay rebalance s := by
  rcases h with ⟨tr, t, hrun, hclosed, hlive⟩
  refine ⟨[(s, l)] ++ tr, t, (Run.nil.snoc hstep).append hrun, ?_, hlive⟩
  intro p hp
  unfold srvSteps at hp
  rw [List.filterMap_append] at hp
  rcases List.mem_append.mp hp with hp | hp
  · obtain ⟨l', hl', rfl⟩ : ∃ l', s.srvLbl w vTaskDelay l = some l' ∧ (s.srv, l') = p := by
      simpa using hp
    rcases hl l' hl' with ⟨sock, rfl⟩
    trivial
  · exact hclosed p hp

/-- In the loop and not dead: the socket is open. -/
theorem revives_serving (htask : s.task = .serving) (hplaced : s.Placed) (hdead : ¬ s.srv.Dead) :
    Revives w vTaskDelay rebalance s := by
  have hrunning : s.srv.running = true := hplaced.mp htask
  have hsock : ¬ s.srv.sock < 0 := fun hsock => hdead ⟨hrunning, hsock⟩
  exact ⟨[], s, .nil, EveryStep.nil, hrunning, Int.not_lt.mp hsock⟩

/-- In front of `socket`, which may return one. -/
theorem revives_connected (htask : s.task = .connected) (hplaced : s.Placed) :
    Revives w vTaskDelay rebalance s := by
  have hstopped : s.srv.running = false := by
    unfold Placed at hplaced
    simpa [htask] using hplaced
  have hstep : s.step w vTaskDelay rebalance (.run 3) =
      some (s.serve { s.srv with sock := 3, running := true }) := by
    simp [step, htask, UdpSrv.step, hstopped]
  refine Revives.of_step hstep ?_ (revives_serving rfl (serve_placed _) ?_)
  · rintro l' ⟨⟩
    exact ⟨3, rfl⟩
  · rintro ⟨-, hsock⟩
    exact absurd hsock (show ¬ (3 : Int) < 0 by omega)

/-- A bit that has just been set is not waited for. -/
theorem waitFor_setBit (group bit : EventBits) :
    Events.waitFor (Events.setBit group bit) bit = true := by
  unfold Events.waitFor Events.setBit
  rw [decide_eq_true_eq]
  apply BitVec.eq_of_getLsbD_eq
  intro i _
  simpa using Or.inr

/-- A connection of the station gets `udp_srv_task` past its wait. -/
theorem revives_waiting (htask : s.task = .waiting) (hplaced : s.Placed) :
    Revives w vTaskDelay rebalance s := by
  have hgot : s.step w vTaskDelay rebalance (.event .staGotIp) = some { s with
      group := Events.setBit s.group Events.wifiConnectedBit
      wifiCalls := s.wifiCalls ++ [] } := rfl
  refine Revives.of_step hgot nofun ?_
  refine Revives.of_step (l := .connected) (if_pos ⟨htask, waitFor_setBit _ _⟩) nofun ?_
  refine revives_connected rfl ?_
  unfold Placed at hplaced
  simpa [Placed, htask] using hplaced

/-- As long as it is not dead, whatever has happened. -/
theorem revives (hplaced : s.Placed) (hdead : ¬ s.srv.Dead) : Revives w vTaskDelay rebalance s := by
  cases htask : s.task with
  | waiting => exact revives_waiting htask hplaced
  | connected => exact revives_connected htask hplaced
  | serving => exact revives_serving htask hplaced hdead
  | delaying =>
    refine Revives.of_step (l := .delayed) (if_pos htask) nofun (revives_waiting rfl ?_)
    unfold Placed at hplaced
    simpa [Placed, htask] using hplaced

/-- A dead server adds nothing to what was sent. -/
theorem net_of_dead (hdead : s.srv.Dead) (hstep : s.step w vTaskDelay rebalance l = some s') :
    s'.net = s.net := by
  cases l with
  | event event =>
    obtain rfl := Option.some.inj hstep
    rfl
  | connected =>
    simp only [step, Option.ite_none_right_eq_some, Option.some.injEq] at hstep
    rcases hstep with ⟨-, rfl⟩
    rfl
  | run sock =>
    simp only [step, Option.ite_none_right_eq_some] at hstep
    rcases Option.map_eq_some_iff.mp hstep.2 with ⟨srv, -, rfl⟩
    rfl
  | receive received currTime sended =>
    simp only [step, Option.ite_none_right_eq_some] at hstep
    rcases Option.map_eq_some_iff.mp hstep.2 with ⟨srv, -, rfl⟩
    rfl
  | delayed =>
    simp only [step, Option.ite_none_right_eq_some, Option.some.injEq] at hstep
    rcases hstep with ⟨-, rfl⟩
    rfl
  | poll mData sendto =>
    rcases Option.map_eq_some_iff.mp hstep with ⟨poller, -, rfl⟩
    cases handedOn s.poller poller with
    | none => rfl
    | some msg =>
      simp only [send, hdead.sendData]
      exact List.append_nil _

/-- The server is dead as soon as a step has killed it, and only then; exactly a dead server is not
alive again in any run that follows, whatever the Wi-Fi does; and no run that follows sends
anything. -/
theorem dead_iff (hrun : Run (step w vTaskDelay rebalance) (powerOn ow bus) tr s)
    (hclosed : EveryStep UdpSrv.ClosedFails (srvSteps w vTaskDelay tr)) :
    (s.srv.Dead ↔ ∃ p ∈ srvSteps w vTaskDelay tr, UdpSrv.Kills p.1 p.2) ∧
      (s.srv.Dead ↔ ∀ tr' s', Run (step w vTaskDelay rebalance) s tr' s' →
        EveryStep UdpSrv.ClosedFails (srvSteps w vTaskDelay tr') → ¬ s'.srv.Live) ∧
      (s.srv.Dead → ∀ tr' s', Run (step w vTaskDelay rebalance) s tr' s' →
        EveryStep UdpSrv.ClosedFails (srvSteps w vTaskDelay tr') → s'.net = s.net) := by
  rcases UdpSrv.dead_iff_kills (run_srv hrun) hclosed with ⟨hkills, hshut⟩
  refine ⟨hkills, ⟨?_, ?_⟩, ?_⟩
  · intro hdead tr' s' hrun' hclosed' hlive
    have hdead' := (hdead.run hshut (run_srv hrun') hclosed').1
    exact absurd hdead'.2 (Int.not_lt.mpr hlive.2)
  · intro hnever
    by_contra hdead
    have hrevives : Revives w vTaskDelay rebalance s := revives (placed hrun) hdead
    rcases hrevives with ⟨tr', s', hrun', hclosed', hlive⟩
    exact hnever tr' s' hrun' hclosed' hlive
  · intro hdead tr' s' hrun' hclosed'
    induction hrun' with
    | nil => rfl
    | @snoc t t' tr' l hr hs ih =>
      rw [srvSteps_snoc] at hclosed'
      have hpast : EveryStep UdpSrv.ClosedFails (srvSteps w vTaskDelay tr') :=
        fun p hp => hclosed' p (List.mem_append_left _ hp)
      exact (net_of_dead (hdead.run hshut (run_srv hr) hpast).1 hs).trans (ih hpast)

/-- The first discovery message gets stuck. -/
def oneFailure : List FirmwareLbl :=
  [.event .staGotIp, .connected, .run 3, .receive (some greeting) discoveryTimeout (-1)]

theorem oneFailure_enabled : (exec (step scripted (fun _ bits => bits) id)
    (powerOn (OneWire.targetSearch 0).resetSearch oneReading) oneFailure).isSome = true := by
  decide +kernel

/-- The first discovery message fails, and the server is dead. -/
theorem dead_iff_failure : ∃ tr s, Run (step scripted (fun _ bits => bits) id)
      (powerOn (OneWire.targetSearch 0).resetSearch oneReading) tr s ∧
    EveryStep UdpSrv.ClosedFails (srvSteps scripted (fun _ bits => bits) tr) ∧
    s.srv.running = true ∧ s.srv.sock < 0 ∧
    ((s.srv.Dead ↔ ∃ p ∈ srvSteps scripted (fun _ bits => bits) tr, UdpSrv.Kills p.1 p.2) ∧
      (s.srv.Dead ↔ ∀ tr' s', Run (step scripted (fun _ bits => bits) id) s tr' s' →
        EveryStep UdpSrv.ClosedFails (srvSteps scripted (fun _ bits => bits) tr') →
          ¬ s'.srv.Live) ∧
      (s.srv.Dead → ∀ tr' s', Run (step scripted (fun _ bits => bits) id) s tr' s' →
        EveryStep UdpSrv.ClosedFails (srvSteps scripted (fun _ bits => bits) tr') →
          s'.net = s.net)) := by
  have hrun := run_get (step scripted (fun _ bits => bits) id)
    (powerOn (OneWire.targetSearch 0).resetSearch oneReading) oneFailure oneFailure_enabled
  refine ⟨_, _, hrun, by decide +kernel, by decide +kernel, by decide +kernel, ?_⟩
  exact dead_iff hrun (by decide +kernel)

end Firmware

end EspAcDimmer

import Cidrella.TcpClients

/-!
# The cap on TCP connections

How `utils/dns-proxy.js` counts its clients' connections: `onTcpConnection` with its handlers,
and `startProxy`, `stopProxy` and `rebindProxy`. A connection is counted when it is accepted
and taken off by whichever handler cleans it up first. A listener that is closed does not end
the connections it accepted.

`stopProxy` sets the count to zero whatever is still open. The count is right in every state of
a run exactly when the proxy is only stopped with no connection open (`counted_iff`).
-/

set_option autoImplicit false

namespace Cidrella

namespace TcpConnectionCap

open TcpClient

/-- `PROXY_MAX_TCP_CONNECTIONS`. -/
def proxyMaxTcpConnections : Nat := 1000

/-- The module's variables, and the connections accepted so far, the first one first. -/
structure Proxy where
  activeTcpConnections : Int := 0
  accepted : List Connection := []
  proxyServers : Nat := 0
  tcpServers : Nat := 0
  deriving DecidableEq, Repr

/-- `onTcpConnection`. A connection past the cap is destroyed and has no handlers. -/
def onTcpConnection (p : Proxy) : Proxy :=
  if (proxyMaxTcpConnections : Int) ≤ p.activeTcpConnections then p
  else { p with
    activeTcpConnections := p.activeTcpConnections + 1
    accepted             := p.accepted ++ [{}] }

/-- `cleanup` of a connection. -/
def cleanup (p : Proxy) (i : Nat) : Proxy :=
  match p.accepted[i]? with
  | none => p
  | some c =>
    if c.closed then p
    else { p with
      activeTcpConnections := p.activeTcpConnections - 1
      accepted             := p.accepted.set i c.cleanup }

/-- The handler of `data`. -/
def onData (p : Proxy) (i : Nat) (chunk : Bytes) : Proxy :=
  match p.accepted[i]? with
  | none => p
  | some c =>
    let (messages, rest) := extractTcpMessages (c.buf ++ chunk)
    let read := { p with
      accepted := p.accepted.set i { c with buf := rest, handled := c.handled ++ messages } }
    if rest.length > 0xffff + 2 then cleanup read i else read

/-- `startProxy`, with what the settings and the interfaces say. -/
def startProxy (switchedOff : Bool) (addresses : Nat) (p : Proxy) : Proxy :=
  if 0 < p.proxyServers ∨ switchedOff = true then p
  else { p with
    proxyServers := addresses
    tcpServers   := p.tcpServers + addresses }

/-- `stopProxy`. -/
def stopProxy (p : Proxy) : Proxy :=
  { p with
    proxyServers         := 0
    tcpServers           := 0
    activeTcpConnections := 0 }

/-- `rebindProxy`. -/
def rebindProxy (switchedOff : Bool) (addresses : Nat) (p : Proxy) : Proxy :=
  startProxy switchedOff addresses (stopProxy p)

/-- What can happen to the proxy. -/
inductive Event where
  | connect
  | data (i : Nat) (chunk : Bytes)
  | timeout (i : Nat)
  | error (i : Nat)
  | close (i : Nat)
  | startProxy (switchedOff : Bool) (addresses : Nat)
  | stopProxy
  | rebindProxy (switchedOff : Bool) (addresses : Nat)
  -- a socket that closes by itself, a listener that could not bind, and another try
  | udpClosed
  | tcpBindFailed
  | bindTcp

def apply (p : Proxy) : Event → Proxy
  | .connect => if p.tcpServers = 0 then p else onTcpConnection p
  | .data i chunk => onData p i chunk
  | .timeout i => cleanup p i
  | .error i => cleanup p i
  | .close i => cleanup p i
  | .startProxy switchedOff addresses => startProxy switchedOff addresses p
  | .stopProxy => stopProxy p
  | .rebindProxy switchedOff addresses => rebindProxy switchedOff addresses p
  | .udpClosed => { p with proxyServers := p.proxyServers - 1 }
  | .tcpBindFailed => { p with tcpServers := p.tcpServers - 1 }
  | .bindTcp => { p with tcpServers := p.tcpServers + 1 }

/-- A sequence of events from the start of the process. -/
def run (events : List Event) : Proxy := events.foldl apply {}

/-- How many accepted connections have not been cleaned up. -/
def openConnections (p : Proxy) : Nat := p.accepted.countP fun c => !c.closed

/-- The count is right and below the cap. -/
def Counted (p : Proxy) : Prop :=
  p.activeTcpConnections = openConnections p ∧ 0 ≤ p.activeTcpConnections ∧
    openConnections p ≤ proxyMaxTcpConnections

/-- The event calls `stopProxy`. -/
def Event.stops : Event → Bool
  | .stopProxy => true
  | .rebindProxy _ _ => true
  | _ => false

/-! ## One event -/

section

variable {p : Proxy} {i : Nat}

theorem counted_onTcpConnection (counted : Counted p) : Counted (onTcpConnection p) := by
  obtain ⟨same, positive, small⟩ := counted
  rw [onTcpConnection]
  split
  · exact ⟨same, positive, small⟩
  · rename_i room
    have one : openConnections { p with
        activeTcpConnections := p.activeTcpConnections + 1
        accepted             := p.accepted ++ [{}] } = openConnections p + 1 := by
      simp [openConnections]
    rw [Counted, one]
    simp only
    omega

theorem counted_cleanup (counted : Counted p) (i : Nat) : Counted (cleanup p i) := by
  obtain ⟨same, positive, small⟩ := counted
  rw [cleanup]
  split
  · exact ⟨same, positive, small⟩
  · rename_i c listed
    obtain ⟨inside, rfl⟩ := List.getElem?_eq_some_iff.mp listed
    split
    · exact ⟨same, positive, small⟩
    · rename_i running
      have counts : (!p.accepted[i].closed) = true := by simp [running]
      have some' : 0 < p.accepted.countP fun c => !c.closed :=
        List.countP_pos_iff.mpr ⟨_, List.getElem_mem inside, counts⟩
      have one : (p.accepted.set i p.accepted[i].cleanup).countP (fun c => !c.closed) =
          (p.accepted.countP fun c => !c.closed) - 1 := by
        rw [List.countP_set inside, if_pos counts]
        simp [Connection.cleanup]
      simp only [Counted, openConnections, one] at *
      omega

theorem counted_onData (counted : Counted p) (i : Nat) (chunk : Bytes) :
    Counted (onData p i chunk) := by
  rw [onData]
  split
  · exact counted
  · rename_i c listed
    obtain ⟨inside, rfl⟩ := List.getElem?_eq_some_iff.mp listed
    have read (buf : Bytes) (handled : List Bytes) :
        Counted { p with
          accepted := p.accepted.set i { p.accepted[i] with buf := buf, handled := handled } } := by
      have same : (p.accepted.set i { p.accepted[i] with buf := buf, handled := handled }).countP
          (fun c => !c.closed) = p.accepted.countP fun c => !c.closed := by
        rw [List.countP_set inside]
        by_cases closed : p.accepted[i].closed = true
        · simp [closed]
        · have counts : (!p.accepted[i].closed) = true := by simp [closed]
          have some' : 0 < p.accepted.countP fun c => !c.closed :=
            List.countP_pos_iff.mpr ⟨_, List.getElem_mem inside, counts⟩
          rw [if_pos counts]
          exact Nat.sub_add_cancel some'
      simpa only [Counted, openConnections, same] using counted
    simp only
    split
    · exact counted_cleanup (read _ _) i
    · exact read _ _

theorem counted_startProxy (counted : Counted p) (switchedOff : Bool) (addresses : Nat) :
    Counted (startProxy switchedOff addresses p) := by
  rw [startProxy]
  split
  · exact counted
  · exact counted

theorem openConnections_stop {event : Event} (stops : event.stops = true) :
    openConnections (apply p event) = openConnections p ∧
    (apply p event).activeTcpConnections = 0 := by
  cases event with
  | stopProxy => exact ⟨rfl, rfl⟩
  | rebindProxy switchedOff addresses =>
    simp only [apply, rebindProxy, startProxy]
    split
    · exact ⟨rfl, rfl⟩
    · exact ⟨rfl, rfl⟩
  | _ => cases stops

/-- **A stop keeps the count right exactly when nothing is open.** -/
theorem counted_stop_iff {event : Event} (stops : event.stops = true) :
    Counted (apply p event) ↔ openConnections p = 0 := by
  obtain ⟨kept, zero⟩ := openConnections_stop (p := p) stops
  rw [Counted, kept, zero]
  omega

theorem counted_apply (counted : Counted p) {event : Event} (goes : event.stops = false) :
    Counted (apply p event) := by
  cases event with
  | connect =>
    simp only [apply]
    split
    · exact counted
    · exact counted_onTcpConnection counted
  | data i chunk => exact counted_onData counted i chunk
  | timeout i => exact counted_cleanup counted i
  | error i => exact counted_cleanup counted i
  | close i => exact counted_cleanup counted i
  | startProxy switchedOff addresses => exact counted_startProxy counted switchedOff addresses
  | stopProxy => cases goes
  | rebindProxy switchedOff addresses => cases goes
  | udpClosed => exact counted
  | tcpBindFailed => exact counted
  | bindTcp => exact counted

end

/-! ## Runs -/

theorem run_concat (events : List Event) (event : Event) : run (events ++ [event]) =
    apply (run events) event := by
  rw [run, List.foldl_append]
  rfl

/-- **The count is right throughout a run exactly when each stop finds nothing open.** -/
theorem counted_iff (events : List Event) :
    (∀ before, before <+: events → Counted (run before)) ↔
      ∀ before event, before ++ [event] <+: events → event.stops = true →
      openConnections (run before) = 0 := by
  constructor
  · intro right before event within stops
    have after := right _ within
    rw [run_concat] at after
    exact (counted_stop_iff stops).mp after
  · intro drained before within
    induction before using List.reverseRecOn with
    | nil => exact ⟨rfl, le_refl 0, Nat.zero_le _⟩
    | append_singleton before event ih =>
      have counted := ih ((List.prefix_append before [event]).trans within)
      rw [run_concat]
      cases stops : event.stops with
      | true => exact (counted_stop_iff stops).mpr (drained before event within stops)
      | false => exact counted_apply counted stops

/-- A connection of before a change of interfaces takes one off the count of after it. -/
theorem rebind_counts_below_zero : ¬ ∀ events before : List Event, before <+: events →
    Counted (run before) := by
  intro all
  obtain ⟨-, positive, -⟩ :=
    all [.startProxy false 1, .connect, .rebindProxy false 1, .close 0] _ List.prefix_rfl
  exact absurd positive (by decide)

end TcpConnectionCap

end Cidrella

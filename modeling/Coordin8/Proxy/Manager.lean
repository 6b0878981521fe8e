import Coordin8.Lease.Reaper
import Coordin8.Support.Broadcast
import Coordin8.Support.Text

/-!
# The proxy manager

`ProxyManager` with the Proxy's own lease manager.  An open proxy is three
things: a lease for `proxy:<id>`, a task that accepts connections on the port,
and an entry in the map `proxies` that holds the sender of the task's shutdown
signal.  `open` makes them in this order; `close`, the cascade of reclaimed
leases, and the task itself end them.

The calls of clients and the cascade are tasks of the process.  The tasks of the
listeners are part of the shared state: what they do next depends on their
sockets and on the signals sent to them.
-/

namespace Coordin8

open Support

inductive ProxyError where
  | notFound (template : Attrs)
  | proxyNotFound (proxyId : String)
  | portRangeExhausted
  | io (message : String)
  | store (e : Error)
deriving DecidableEq

/-- Resource ids of proxy leases. -/
def proxyResource (proxyId : String) : String :=
  "proxy:" ++ proxyId

/-- An entry of the map; the shutdown sender is that of the proxy's task. -/
structure ProxyEntry where
  leaseId : String
deriving DecidableEq, Repr

/-- A listener's task accepts connections, or its select is over and it is about
to remove its entry. -/
inductive ListenerState where
  | accepting
  | leaving
deriving DecidableEq, Repr

/-- What the calls share.  `signals` holds the proxies whose shutdown signal was
sent. -/
structure ProxyShared where
  landlord : Landlord
  proxies : DashMap String ProxyEntry
  listeners : DashMap String ListenerState
  signals : List String
deriving DecidableEq

def ProxyShared.new : ProxyShared where
  landlord := .new
  proxies := ∅
  listeners := ∅
  signals := []

/-- The upstream address of the capability that was resolved. -/
def resolve (template : Attrs) (resolved : Except Error (Option RegistryEntry)) :
    Except ProxyError String :=
  match resolved with
  | .error e => .error (.store e)
  | .ok none => .error (.notFound template)
  | .ok (some entry) =>
      match entry.transport with
      | none => .error (.notFound template)
      | some t =>
          let host := (t.config["host"]?).getD ""
          let port := (t.config["port"]?).getD ""
          .ok (host ++ ":" ++ port)

/-- What a call returns when it succeeds. -/
inductive ProxyReply where
  | unit
  | opened (proxyId : String) (localPort : UInt16) (lease : LeaseRecord)
deriving DecidableEq

/-- Where a call stands. -/
inductive ProxyPc where
  | openProxy (template : Attrs) (ttlSecs : UInt64)
  | bind (ttlSecs : UInt64)
  | grant (localPort : UInt16) (ttlSecs : UInt64)
  | spawn (proxyId : String) (localPort : UInt16) (lease : LeaseRecord)
  | insert (proxyId : String) (localPort : UInt16) (lease : LeaseRecord)
  | close (proxyId : String)
  | closeSignal (proxyId : String) (entry : ProxyEntry)
  | closeCancel (proxyId : String) (pc : LeasePc)
  /-- The cascade at the position `cursor`, after `missed` lost events. -/
  | cascade (cursor missed : Nat)
  | handle (proxyId : String) (cursor missed : Nat)
  | handleSignal (proxyId : String) (cursor missed : Nat)
  /-- A call of `LeaseService`, or a sweep of the reaper. -/
  | lease (pc : LeasePc)
  | returned (answer : Except ProxyError ProxyReply)
deriving DecidableEq

/-- What the outside decides in a move. -/
inductive ProxyChoice where
  | go
  | resolved (result : Except Error (Option RegistryEntry))
  | bound (result : Except ProxyError UInt16)
  /-- The identifiers drawn for a proxy and for its lease. -/
  | uuids (proxyId leaseId : String)
  | lease (c : LeaseChoice)

/-- What happened in the process, with the task that did it. -/
inductive ProxyLog where
  | granted (task : Nat) (proxyId leaseId : String)
  | inserted (task : Nat) (proxyId : String)
  /-- The entry was taken out of the map, to end the proxy. -/
  | removed (task : Nat) (proxyId : String)
  /-- The lease was taken out of the lease store. -/
  | lost (task : Nat) (leaseId : String)
deriving DecidableEq

structure ProxyConfig where
  lease : LeaseConfig
  /-- Capacity of the broadcast of reclaimed leases. -/
  capacity : Nat

namespace ProxyPc

/-! ## Moves -/

/-- A move that enters nothing in the log. -/
def quietly (h : ProxyShared) (pc : ProxyPc) :
    Option (ProxyShared × ProxyPc × List ProxyLog) :=
  some (h, pc, [])

/-- The next move of a call that depends on nothing outside. -/
def go (config : ProxyConfig) (task : Nat) (h : ProxyShared) :
    ProxyPc → Option (ProxyShared × ProxyPc × List ProxyLog)
  | .spawn id port granted =>
      quietly { h with listeners := h.listeners.insert id .accepting }
        (.insert id port granted)
  | .insert id port granted =>
      some ({ h with proxies := h.proxies.insert id ⟨granted.leaseId⟩ },
        .returned (.ok (.opened id port granted)), [.inserted task id])
  | .close id =>
      match h.proxies[id]? with
      | none => quietly h (.returned (.error (.proxyNotFound id)))
      | some entry =>
          some ({ h with proxies := h.proxies.erase id },
            .closeSignal id entry, [.removed task id])
  | .closeSignal id entry =>
      quietly { h with signals := h.signals ++ [id] }
        (.closeCancel id (.cancel entry.leaseId))
  | .cascade cursor missed =>
      match recv config.capacity h.landlord.sent cursor with
      | none => none
      | some (.lagged n, cursor) => quietly h (.cascade cursor (missed + n))
      | some (.message e, cursor) =>
          match stripPrefix "proxy:" e.record.resourceId with
          | none => quietly h (.cascade cursor missed)
          | some id => quietly h (.handle id cursor missed)
  | .handle id cursor missed =>
      match h.proxies[id]? with
      | none => quietly h (.cascade cursor missed)
      | some _ =>
          some ({ h with proxies := h.proxies.erase id },
            .handleSignal id cursor missed, [.removed task id])
  | .handleSignal id cursor missed =>
      quietly { h with signals := h.signals ++ [id] } (.cascade cursor missed)
  | _ => none

/-- The grant of `open`, under the identifiers drawn. -/
def draw (config : ProxyConfig) (task : Nat) (h : ProxyShared)
    (id leaseId : String) :
    ProxyPc → Option (ProxyShared × ProxyPc × List ProxyLog)
  | .grant port ttlSecs =>
      if id ∈ h.landlord.uuids ∨ leaseId ∈ id :: h.landlord.uuids then
        none
      else
        let landlord := { h.landlord with uuids := id :: h.landlord.uuids }
        match landlord.grant config.lease leaseId (proxyResource id) ttlSecs with
        | .error e =>
            quietly { h with landlord := landlord }
              (.returned (.error (.store e)))
        | .ok (granted, landlord) =>
            some ({ h with landlord := landlord }, .spawn id port granted,
              [.granted task id leaseId])
  | _ => none

/-- The lease that a move of the lease manager took out of the store. -/
def lostEvents (task : Nat) (l l' : Landlord) (pc : LeasePc) : List ProxyLog :=
  (pc.target.toList.filter (l.lost l')).map (.lost task)

/-- The answer of `cancel` is not passed on. -/
def afterCancel (id : String) : LeasePc → ProxyPc
  | .returned _ => .returned (.ok .unit)
  | pc => .closeCancel id pc

/-- A move of the lease manager, inside `close` or for a client. -/
def leaseStep (config : ProxyConfig) (task : Nat) (h : ProxyShared)
    (c : LeaseChoice) :
    ProxyPc → Option (ProxyShared × ProxyPc × List ProxyLog)
  | .closeCancel id pc =>
      (pc.advance config.lease h.landlord c).map fun out =>
        ({ h with landlord := out.1 }, afterCancel id out.2,
          lostEvents task h.landlord out.1 pc)
  | .lease pc =>
      (pc.advance config.lease h.landlord c).map fun out =>
        ({ h with landlord := out.1 }, .lease out.2,
          lostEvents task h.landlord out.1 pc)
  | _ => none

/-- The next move of a call. -/
def advance (config : ProxyConfig) (task : Nat) (h : ProxyShared)
    (pc : ProxyPc) :
    ProxyChoice → Option (ProxyShared × ProxyPc × List ProxyLog)
  | .go => go config task h pc
  | .resolved result =>
      match pc with
      | .openProxy template ttlSecs =>
          match resolve template result with
          | .error e => quietly h (.returned (.error e))
          | .ok _ => quietly h (.bind ttlSecs)
      | _ => none
  | .bound result =>
      match pc with
      | .bind ttlSecs =>
          match result with
          | .error e => quietly h (.returned (.error e))
          | .ok port => quietly h (.grant port ttlSecs)
      | _ => none
  | .uuids id leaseId => draw config task h id leaseId pc
  | .lease c => leaseStep config task h c pc

/-- The calls a client or the reaper may start; a client is granted no lease for
a proxy by `LeaseService`. -/
def entry : ProxyPc → Bool
  | .openProxy .. | .close _ => true
  | .lease (.grant resourceId _) => (stripPrefix "proxy:" resourceId).isNone
  | .lease pc => pc.entry
  | _ => false

end ProxyPc

/-! ## The process -/

/-- The clock moves; the socket of a listener fails; a listener's task sees its
shutdown signal; a listener's task removes its entry and ends. -/
inductive ProxyAmbient where
  | tick (nanoseconds : Nat)
  | acceptError (proxyId : String)
  | shutdown (proxyId : String)
  | leave (proxyId : String)
deriving DecidableEq, Repr

def ProxyShared.ambient (h : ProxyShared) :
    ProxyAmbient → Option (ProxyShared × List ProxyPc)
  | .tick d =>
      some ({ h with landlord := { h.landlord with
        now := h.landlord.now + d } }, [])
  | .acceptError id =>
      if h.listeners[id]? = some .accepting then
        some ({ h with listeners := h.listeners.insert id .leaving }, [])
      else
        none
  | .shutdown id =>
      if h.listeners[id]? = some .accepting ∧ id ∈ h.signals then
        some ({ h with listeners := h.listeners.insert id .leaving }, [])
      else
        none
  | .leave id =>
      if h.listeners[id]? = some .leaving then
        some ({ h with
          listeners := h.listeners.erase id
          proxies := h.proxies.erase id }, [])
      else
        none

abbrev ProxyAct := PoolAct ProxyPc ProxyChoice ProxyAmbient

abbrev ProxyProc := Pool ProxyShared ProxyPc ProxyLog

/-- The Proxy's process. -/
def proxyProgram (config : ProxyConfig) :
    Program ProxyShared ProxyPc ProxyLog ProxyChoice ProxyAmbient where
  entry := ProxyPc.entry
  advance := ProxyPc.advance config
  ambient := ProxyShared.ambient

/-- At the start there is the cascade. -/
def ProxyProc.new : ProxyProc where
  shared := .new
  tasks := [.cascade 0 0]
  log := []

end Coordin8

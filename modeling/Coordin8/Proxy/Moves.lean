import Coordin8.Lease.Once
import Coordin8.Proxy.Manager

/-!
# The moves of the proxy manager

`ProxyMove` lists what one move of a call can do, with what it reads; the proofs
about the process go through it.
-/

namespace Coordin8

open Support Support.DashMap

/-- The calls of `open` before the grant, before and after a move. -/
inductive ProxyPc.Begins : ProxyPc → ProxyPc → Prop where
  | refused (template : Attrs) (ttlSecs : UInt64) (e : ProxyError) :
      Begins (.openProxy template ttlSecs) (.returned (.error e))
  | resolved (template : Attrs) (ttlSecs : UInt64) :
      Begins (.openProxy template ttlSecs) (.bind ttlSecs)
  | unbound (ttlSecs : UInt64) (e : ProxyError) :
      Begins (.bind ttlSecs) (.returned (.error e))
  | bound (ttlSecs : UInt64) (port : UInt16) :
      Begins (.bind ttlSecs) (.grant port ttlSecs)

/-- What one move of the task `i` can do. -/
inductive ProxyMove (config : ProxyConfig) (i : Nat) (h : ProxyShared) :
    ProxyPc → ProxyShared → ProxyPc → List ProxyLog → Prop where
  | begin {pc pc' : ProxyPc} (hbegins : pc.Begins pc') :
      ProxyMove config i h pc h pc' []
  | grant {port : UInt16} {ttlSecs : UInt64} {id l : String}
      {granted : LeaseRecord} {landlord : Landlord}
      (hid : id ∉ h.landlord.uuids) (hl : l ∉ id :: h.landlord.uuids)
      (hgrant : { h.landlord with uuids := id :: h.landlord.uuids }.grant
        config.lease l (proxyResource id) ttlSecs = .ok (granted, landlord)) :
      ProxyMove config i h (.grant port ttlSecs) { h with landlord := landlord }
        (.spawn id port granted) [.granted i id l]
  | grantFailed {port : UInt16} {ttlSecs : UInt64} {id : String} {e : Error} :
      ProxyMove config i h (.grant port ttlSecs)
        { h with landlord :=
          { h.landlord with uuids := id :: h.landlord.uuids } }
        (.returned (.error (.store e))) []
  | spawn {id : String} {port : UInt16} {granted : LeaseRecord} :
      ProxyMove config i h (.spawn id port granted)
        { h with listeners := h.listeners.insert id .accepting }
        (.insert id port granted) []
  | insert {id : String} {port : UInt16} {granted : LeaseRecord} :
      ProxyMove config i h (.insert id port granted)
        { h with proxies := h.proxies.insert id ⟨granted.leaseId⟩ }
        (.returned (.ok (.opened id port granted))) [.inserted i id]
  | closeNone {id : String} :
      ProxyMove config i h (.close id) h
        (.returned (.error (.proxyNotFound id))) []
  | close {id : String} {entry : ProxyEntry}
      (hget : h.proxies[id]? = some entry) :
      ProxyMove config i h (.close id)
        { h with proxies := h.proxies.erase id } (.closeSignal id entry)
        [.removed i id]
  | closeSignal {id : String} {entry : ProxyEntry} :
      ProxyMove config i h (.closeSignal id entry)
        { h with signals := h.signals ++ [id] }
        (.closeCancel id (.cancel entry.leaseId)) []
  | closeCancel {id : String} {lpc lpc' : LeasePc} {c : LeaseChoice}
      {landlord : Landlord}
      (hstep : lpc.advance config.lease h.landlord c = some (landlord, lpc')) :
      ProxyMove config i h (.closeCancel id lpc) { h with landlord := landlord }
        (ProxyPc.afterCancel id lpc')
        (ProxyPc.lostEvents i h.landlord landlord lpc)
  | lag {cursor cursor' missed n : Nat}
      (hrecv : recv config.capacity h.landlord.sent cursor =
        some (.lagged n, cursor')) :
      ProxyMove config i h (.cascade cursor missed) h
        (.cascade cursor' (missed + n)) []
  | skip {cursor missed : Nat} {e : LeaseReclaimed}
      (hnext : h.landlord.sent[cursor]? = some e)
      (hother : ∀ id, e.record.resourceId ≠ proxyResource id) :
      ProxyMove config i h (.cascade cursor missed) h
        (.cascade (cursor + 1) missed) []
  | take {cursor missed : Nat} {e : LeaseReclaimed} {id : String}
      (hnext : h.landlord.sent[cursor]? = some e)
      (hproxy : e.record.resourceId = proxyResource id) :
      ProxyMove config i h (.cascade cursor missed) h
        (.handle id (cursor + 1) missed) []
  | handleNone {id : String} {cursor missed : Nat}
      (hget : h.proxies[id]? = none) :
      ProxyMove config i h (.handle id cursor missed) h
        (.cascade cursor missed) []
  | handle {id : String} {cursor missed : Nat} {entry : ProxyEntry}
      (hget : h.proxies[id]? = some entry) :
      ProxyMove config i h (.handle id cursor missed)
        { h with proxies := h.proxies.erase id }
        (.handleSignal id cursor missed) [.removed i id]
  | handleSignal {id : String} {cursor missed : Nat} :
      ProxyMove config i h (.handleSignal id cursor missed)
        { h with signals := h.signals ++ [id] } (.cascade cursor missed) []
  | lease {lpc lpc' : LeasePc} {c : LeaseChoice} {landlord : Landlord}
      (hstep : lpc.advance config.lease h.landlord c = some (landlord, lpc')) :
      ProxyMove config i h (.lease lpc) { h with landlord := landlord }
        (.lease lpc') (ProxyPc.lostEvents i h.landlord landlord lpc)

namespace ProxyMove

variable {config : ProxyConfig} {i : Nat} {h h' : ProxyShared}
  {pc pc' : ProxyPc} {events : List ProxyLog}

theorem of_go (hmove : ProxyPc.go config i h pc = some (h', pc', events)) :
    ProxyMove config i h pc h' pc' events := by
  cases pc with
  | spawn =>
      cases hmove
      exact .spawn
  | insert =>
      cases hmove
      exact .insert
  | close id =>
      simp only [ProxyPc.go] at hmove
      split at hmove <;> cases hmove
      · exact .closeNone
      · next hget => exact .close hget
  | closeSignal =>
      cases hmove
      exact .closeSignal
  | cascade cursor missed =>
      simp only [ProxyPc.go] at hmove
      split at hmove
      · cases hmove
      · next hrecv =>
        cases hmove
        exact .lag hrecv
      · next e cursor' hrecv =>
        obtain ⟨hnext, rfl⟩ := recv_eq_message hrecv
        split at hmove <;> cases hmove
        · next hnone =>
          refine .skip hnext fun id heq => ?_
          rw [stripPrefix_eq_some_iff.mpr heq] at hnone
          cases hnone
        · next hsome => exact .take hnext (stripPrefix_eq_some_iff.mp hsome)
  | handle id cursor missed =>
      simp only [ProxyPc.go] at hmove
      split at hmove <;> cases hmove
      · next hget => exact .handleNone hget
      · next hget => exact .handle hget
  | handleSignal =>
      cases hmove
      exact .handleSignal
  | _ => cases hmove

theorem of_draw {id l : String}
    (hmove : ProxyPc.draw config i h id l pc = some (h', pc', events)) :
    ProxyMove config i h pc h' pc' events := by
  cases pc with
  | grant port ttlSecs =>
      simp only [ProxyPc.draw] at hmove
      split at hmove
      · cases hmove
      · next hfresh =>
        simp only [not_or] at hfresh
        split at hmove <;> cases hmove
        · exact .grantFailed
        · next hgrant => exact .grant hfresh.1 hfresh.2 hgrant
  | _ => cases hmove

theorem of_leaseStep {c : LeaseChoice}
    (hmove : ProxyPc.leaseStep config i h c pc = some (h', pc', events)) :
    ProxyMove config i h pc h' pc' events := by
  cases pc with
  | closeCancel id lpc =>
      obtain ⟨⟨landlord, lpc'⟩, hstep, heq⟩ := Option.map_eq_some_iff.mp hmove
      cases heq
      exact .closeCancel hstep
  | lease lpc =>
      obtain ⟨⟨landlord, lpc'⟩, hstep, heq⟩ := Option.map_eq_some_iff.mp hmove
      cases heq
      exact .lease hstep
  | _ => cases hmove

theorem of_advance {choice : ProxyChoice}
    (hmove : pc.advance config i h choice = some (h', pc', events)) :
    ProxyMove config i h pc h' pc' events := by
  cases choice with
  | go => exact of_go hmove
  | resolved result =>
      cases pc with
      | openProxy template ttlSecs =>
          simp only [ProxyPc.advance] at hmove
          split at hmove <;> cases hmove
          · exact .begin (.refused template ttlSecs _)
          · exact .begin (.resolved template ttlSecs)
      | _ => cases hmove
  | bound result =>
      cases pc with
      | bind ttlSecs =>
          simp only [ProxyPc.advance] at hmove
          split at hmove <;> cases hmove
          · exact .begin (.unbound ttlSecs _)
          · exact .begin (.bound ttlSecs _)
      | _ => cases hmove
  | uuids id l => exact of_draw hmove
  | lease c => exact of_leaseStep hmove

end ProxyMove

end Coordin8

import Coordin8.Lease.Manager

/-!
# Keeping a lease alive

Three clients renew a lease in a loop: the renewal task of `self_register`, the
`KeepAlive` of the Go SDK and the `keepAlive` of the Java SDK.  Each computes its
period from the term it asks for, while the lease runs for the term the server
has granted.  This module says when the period is shorter than the granted term,
and that the lease then never expires as long as every renewal succeeds in
time.

The Java loop counts in a `long`.  A term of `2 ^ 63` seconds or more, which on
the wire is a `uint64`, is negative there, and its period is the least one.  A
Go `Duration` is an integer here, as halving it does not overflow.
-/

namespace Coordin8

open Support

/-! ## The periods -/

/-- `renewal_interval` of `self_register`, in seconds. -/
def renewalInterval (ttlSeconds : UInt64) : UInt64 :=
  max ttlSeconds 3 / 3

/-- The ticker of the Go `KeepAlive`, for a `Duration` in nanoseconds. -/
def tickerPeriod (ttl : Int) : Int :=
  ttl.tdiv 2

/-- `intervalSeconds` of the Java `keepAlive`. -/
def intervalSeconds (ttlSeconds : Int64) : Int64 :=
  max (ttlSeconds / 2) 1

inductive KeepAliveLoop where
  | selfRegister
  | goKeepAlive
  | javaKeepAlive
deriving DecidableEq, Repr

namespace KeepAliveLoop

/-- The time between two renewals, in nanoseconds, for a term in whole
seconds. -/
def period (ttl : UInt64) : KeepAliveLoop → Int
  | .selfRegister => (renewalInterval ttl).toNat * second
  | .goKeepAlive => tickerPeriod (ttl.toNat * second)
  | .javaKeepAlive => (intervalSeconds ttl.toInt64).toInt * second

/-- When the period fits the policy of the server: the term and every cap are at
least two seconds (the loops in whole seconds), and a cap is more than a third,
or half, of the term.  The Java loop takes a term of `2 ^ 63` or more for a
negative one. -/
def Fits (config : LeaseConfig) (ttl : UInt64) : KeepAliveLoop → Prop
  | .selfRegister =>
      2 ≤ ttl.toNat ∧ ∀ cap, config.maxTtl = some cap →
        2 ≤ cap.toNat ∧ ttl.toNat < 3 * cap.toNat
  | .goKeepAlive =>
      ∀ cap, config.maxTtl = some cap → ttl.toNat < 2 * cap.toNat
  | .javaKeepAlive =>
      2 ≤ ttl.toNat ∧ ∀ cap, config.maxTtl = some cap →
        2 ≤ cap.toNat ∧ (ttl.toNat < 2 ^ 63 → ttl.toNat < 2 * cap.toNat)

end KeepAliveLoop

/-! ## The granted term -/

section Negotiate

variable {config : LeaseConfig} {ttl cap : UInt64}

theorem toNat_min (a b : UInt64) : (min a b).toNat = min a.toNat b.toNat := by
  change (if a ≤ b then a else b).toNat = _
  rw [apply_ite UInt64.toNat, Nat.min_def]
  simp only [UInt64.le_iff_toNat_le]

theorem toNat_max (a b : UInt64) : (max a b).toNat = max a.toNat b.toNat := by
  change (if a ≤ b then b else a).toNat = _
  rw [apply_ite UInt64.toNat, Nat.max_def]
  simp only [UInt64.le_iff_toNat_le]

theorem leaseForever_toNat : leaseForever.toNat = 2 ^ 64 - 1 := rfl

theorem toNat_le_forever (ttl : UInt64) : ttl.toNat ≤ leaseForever.toNat := by
  have hlt := ttl.toNat_lt
  rw [leaseForever_toNat]
  omega

theorem ne_leaseAny (hpos : 1 ≤ ttl.toNat) : ttl ≠ leaseAny := by
  rintro rfl
  exact absurd hpos (by decide)

theorem negotiate_capped (hcap : config.maxTtl = some cap)
    (hpos : 1 ≤ ttl.toNat) :
    (config.negotiate ttl).toNat = min ttl.toNat cap.toNat := by
  rw [LeaseConfig.negotiate, if_neg (ne_leaseAny hpos)]
  by_cases hforever : ttl = leaseForever
  · rw [if_pos hforever, hcap, hforever]
    exact (Nat.min_eq_right (toNat_le_forever cap)).symm
  · rw [if_neg hforever, hcap]
    exact toNat_min ttl cap

/-- Without a cap, the term itself is granted, or a lease without end for one
that is too long. -/
theorem negotiate_uncapped (hcap : config.maxTtl = none)
    (hpos : 1 ≤ ttl.toNat) :
    (config.negotiate ttl).toNat = ttl.toNat ∨
      2 ≤ ttl.toNat ∧ ttl.toNat ≤ (config.negotiate ttl).toNat := by
  rw [LeaseConfig.negotiate, if_neg (ne_leaseAny hpos)]
  by_cases hforever : ttl = leaseForever
  · rw [if_pos hforever, hcap, hforever]
    exact .inl rfl
  · rw [if_neg hforever, hcap]
    dsimp only
    split
    · next hlong =>
      have hlong' := UInt64.lt_iff_toNat_lt.mp hlong
      have hcentury : maxRepresentableTtlSecs.toNat = 3153600000 := by decide
      exact .inr ⟨by omega, toNat_le_forever ttl⟩
    · exact .inl rfl

end Negotiate

/-! ## Period and term -/

namespace KeepAliveLoop

variable {config : LeaseConfig} {ttl : UInt64}

theorem toNat_renewalInterval (ttl : UInt64) :
    (renewalInterval ttl).toNat = max ttl.toNat 3 / 3 := by
  rw [renewalInterval, UInt64.toNat_div, toNat_max]
  rfl

/-- A term of `2 ^ 63` or more is negative as a `long`. -/
theorem toInt_intervalSeconds (ttl : UInt64) :
    (intervalSeconds ttl.toInt64).toInt =
      max (if ttl.toNat < 2 ^ 63 then ttl.toNat / 2 else 0 : Nat) 1 := by
  have hhalf : (ttl.toInt64 / 2).toInt = (if 2 * ttl.toNat < 2 ^ 64 then
      (ttl.toNat : Int) else ttl.toNat - 2 ^ 64).tdiv 2 := by
    rw [Int64.toInt_div_of_ne_right _ _ (by decide), ← Int64.toInt_toBitVec,
      UInt64.toBitVec_toInt64, BitVec.toInt_eq_toNat_cond]
    rfl
  have hmax : (intervalSeconds ttl.toInt64).toInt =
      if (ttl.toInt64 / 2).toInt ≤ 1 then 1 else (ttl.toInt64 / 2).toInt :=
    (apply_ite Int64.toInt (ttl.toInt64 / 2 ≤ 1) 1 _).trans
      (if_congr Int64.le_iff_toInt_le rfl rfl)
  have hlt := ttl.toNat_lt
  by_cases hsmall : ttl.toNat < 2 ^ 63
  · rw [if_pos (by omega), Int.tdiv_eq_ediv_of_nonneg (by omega)] at hhalf
    rw [hmax, hhalf, if_pos hsmall]
    split <;> omega
  · rw [if_neg (by omega)] at hhalf
    have hneg : (ttl.toNat - 2 ^ 64 : Int).tdiv 2 =
        -((2 ^ 64 - ttl.toNat) / 2) := by
      rw [← Int.neg_sub, Int.neg_tdiv, Int.tdiv_eq_ediv_of_nonneg (by omega)]
    rw [hmax, hhalf, hneg, if_neg hsmall, if_pos (by omega)]
    rfl

theorem period_lt_iff (ttl : UInt64) (granted : Nat) (loop : KeepAliveLoop) :
    loop.period ttl < granted * second ↔
      match loop with
      | .selfRegister => max ttl.toNat 3 / 3 < granted
      | .goKeepAlive => ttl.toNat < 2 * granted
      | .javaKeepAlive =>
          max (if ttl.toNat < 2 ^ 63 then ttl.toNat / 2 else 0) 1 < granted := by
  cases loop with
  | selfRegister =>
      simp only [period, second, toNat_renewalInterval]
      omega
  | goKeepAlive =>
      simp only [period, second, tickerPeriod]
      rw [Int.tdiv_eq_ediv_of_nonneg (by omega)]
      omega
  | javaKeepAlive =>
      simp only [period, second, toInt_intervalSeconds]
      omega

variable (config) in
theorem period_lt_granted_iff (hpos : 1 ≤ ttl.toNat) (loop : KeepAliveLoop) :
    loop.period ttl < (config.negotiate ttl).toNat * second ↔
      loop.Fits config ttl := by
  rw [period_lt_iff]
  cases hcap : config.maxTtl with
  | none =>
      have hgranted := negotiate_uncapped hcap hpos
      cases loop with
      | selfRegister =>
          simp only [Fits, hcap, reduceCtorEq, false_implies, implies_true,
            and_true]
          omega
      | goKeepAlive =>
          simp only [Fits, hcap, reduceCtorEq, false_implies, implies_true,
            iff_true]
          omega
      | javaKeepAlive =>
          simp only [Fits, hcap, reduceCtorEq, false_implies, implies_true,
            and_true]
          split <;> omega
  | some cap =>
      have hgranted := negotiate_capped hcap hpos
      cases loop with
      | selfRegister | goKeepAlive =>
          simp only [Fits, hcap, Option.some.injEq, forall_eq']
          omega
      | javaKeepAlive =>
          simp only [Fits, hcap, Option.some.injEq, forall_eq']
          split <;> omega

end KeepAliveLoop

/-! ## A lease that is renewed in time -/

/-- A renewal that succeeds, with no other call in between. -/
def Renews (config : LeaseConfig) (leaseId : String) (ttl : UInt64)
    (l l' : Landlord) : Prop :=
  LeasePc.advance config l (.renew leaseId ttl) .go =
      some (l, .renewStore leaseId ttl) ∧
    ∃ record, LeasePc.advance config l (.renewStore leaseId ttl) .go =
      some (l', .returned (.ok (some record)))

/-- The lease is renewed every `period`, and every renewal succeeds.  Between
two renewals anything may happen that does not concern the lease. -/
inductive Renewals (config : LeaseConfig) (leaseId : String) (ttl : UInt64)
    (period : Int) (l₀ : Landlord) : Landlord → Prop where
  | none : Renewals config leaseId ttl period l₀ l₀
  | next {l m l' : Landlord} (hbefore : Renewals config leaseId ttl period l₀ l)
      (hnow : m.now = l.now + period)
      (hlease : m.leases.get leaseId = l.leases.get leaseId)
      (hrenew : Renews config leaseId ttl m l') :
      Renewals config leaseId ttl period l₀ l'

/-- The lease runs for the negotiated term, counted from now. -/
def RunsFromNow (config : LeaseConfig) (leaseId : String) (ttl : UInt64)
    (l : Landlord) : Prop :=
  ∃ record, l.leases.get leaseId = some record ∧
    record.ttlSeconds = config.negotiate ttl ∧
    expiryFor l.now (config.negotiate ttl) = .ok record.expiresAt

theorem expiryFor_finite {now expiry : Timestamp} {ttlSecs : UInt64}
    (hexpiry : expiryFor now ttlSecs = .ok expiry)
    (hfinite : ttlSecs ≠ leaseForever) :
    expiry = now + ttlSecs.toNat * 10 ^ 9 := by
  rw [expiryFor, if_neg hfinite] at hexpiry
  split at hexpiry
  · next end' hsome =>
    obtain rfl := Except.ok.inj hexpiry
    unfold checkedExpiry at hsome
    split at hsome
    · dsimp only at hsome
      split at hsome
      · exact (Option.some.inj hsome).symm
      · cases hsome
    · cases hsome
  · cases hexpiry

section Alive

variable {config : LeaseConfig} {leaseId : String} {ttl : UInt64}
  {period : Int} {l l' : Landlord}

theorem runsFromNow_grant {resourceId : String} {record : LeaseRecord}
    (hgrant : l.grant config leaseId resourceId ttl = .ok (record, l')) :
    RunsFromNow config leaseId ttl l' := by
  obtain ⟨hterm, hexpiry⟩ := Landlord.grant_expiry hgrant
  obtain ⟨-, -, rfl⟩ := Landlord.grant_eq_ok hgrant
  refine ⟨record, ?_, hterm, hexpiry⟩
  simp [InMemoryLeaseStore.get]

theorem runsFromNow_renews (hrenew : Renews config leaseId ttl l l') :
    RunsFromNow config leaseId ttl l' := by
  obtain ⟨-, record, hstore⟩ := hrenew
  cases LeaseMove.of_advance hstore with
  | @renewed _ _ found expiry hget hexpiry =>
      refine ⟨{ found with
        expiresAt := expiry
        ttlSeconds := config.negotiate ttl }, ?_, rfl, hexpiry⟩
      simp [InMemoryLeaseStore.get]

theorem RunsFromNow.alive (hruns : RunsFromNow config leaseId ttl l)
    (hperiod : period < (config.negotiate ttl).toNat * second) :
    ∃ record, l.leases.get leaseId = some record ∧
      ∀ t ≤ l.now + period, record.isExpired t = false := by
  obtain ⟨record, hget, hterm, hexpiry⟩ := hruns
  refine ⟨record, hget, ?_⟩
  intro t ht
  unfold LeaseRecord.isExpired
  rw [hterm]
  by_cases hforever : config.negotiate ttl = leaseForever
  · rw [if_pos hforever]
  · rw [if_neg hforever, decide_eq_false_iff_not]
    have hend := expiryFor_finite hexpiry hforever
    rw [hend]
    exact Int.not_le.mpr
      (Int.lt_of_le_of_lt ht (Int.add_lt_add_left hperiod l.now))

theorem runsFromNow_renewals (hstart : RunsFromNow config leaseId ttl l)
    (hrenewals : Renewals config leaseId ttl period l l') :
    RunsFromNow config leaseId ttl l' := by
  cases hrenewals with
  | none => exact hstart
  | next _ _ _ hrenew => exact runsFromNow_renews hrenew

end Alive

/-- The period of a loop is shorter than the granted term exactly when it fits
the policy of the server.  Then the lease does not expire, from its grant on and
up to the next renewal, as long as every renewal succeeds in time. -/
theorem keepAlive_renews_in_time (loop : KeepAliveLoop) (config : LeaseConfig)
    (ttl : UInt64) (hpos : 1 ≤ ttl.toNat) :
    (loop.period ttl < (config.negotiate ttl).toNat * second ↔
      loop.Fits config ttl) ∧
    (loop.Fits config ttl →
      ∀ (l₀ l₁ l : Landlord) (leaseId resourceId : String)
        (record₀ : LeaseRecord),
        l₀.grant config leaseId resourceId ttl = .ok (record₀, l₁) →
        Renewals config leaseId ttl (loop.period ttl) l₁ l →
        ∃ record, l.leases.get leaseId = some record ∧
          ∀ t ≤ l.now + loop.period ttl, record.isExpired t = false) := by
  have hiff := KeepAliveLoop.period_lt_granted_iff config hpos loop
  refine ⟨hiff, ?_⟩
  intro hfits l₀ l₁ l leaseId resourceId record₀ hgrant hrenewals
  have hruns := runsFromNow_renewals (runsFromNow_grant hgrant) hrenewals
  exact hruns.alive (hiff.mpr hfits)

/-! ## Terms that fit and terms that do not -/

/-- A manager that has granted a lease for the term asked for. -/
def leased (config : LeaseConfig) (ttl : UInt64) : Landlord :=
  match Landlord.new.grant config "lease-1" "registry:cap-1" ttl with
  | .ok (_, l) => l
  | .error _ => .new

def firstTick (loop : KeepAliveLoop) (config : LeaseConfig) (ttl : UInt64) :
    Landlord :=
  { leased config ttl with now := loop.period ttl }

theorem keepAlive_renews_in_time_minute :
    (KeepAliveLoop.selfRegister.period 60 <
        (LeaseConfig.default.negotiate 60).toNat * second ↔
      KeepAliveLoop.selfRegister.Fits .default 60) ∧
    ∃ record, (leased .default 60).leases.get "lease-1" = some record ∧
      ∀ t ≤ (leased .default 60).now + KeepAliveLoop.selfRegister.period 60,
        record.isExpired t = false := by
  have hfits : KeepAliveLoop.selfRegister.Fits .default 60 := by
    refine ⟨by decide, fun cap hcap => ?_⟩
    obtain rfl := Option.some.inj hcap
    decide
  have htheorem := keepAlive_renews_in_time .selfRegister .default 60 (by decide)
  exact ⟨htheorem.1, htheorem.2 hfits .new (leased .default 60)
    (leased .default 60) "lease-1" "registry:cap-1" _ rfl .none⟩

/-- A client that asks for a day renews, in each loop, hours after the hour that
the default policy grants; one that asks for a second renews a lease of one
second every second, in the loops that count whole seconds.  The renewal finds
the lease expired. -/
theorem renewal_finds_lease_expired :
    (∀ loop : KeepAliveLoop,
      ¬ loop.period 86400 <
          (LeaseConfig.default.negotiate 86400).toNat * second ∧
        LeasePc.advance .default (firstTick loop .default 86400)
            (.renew "lease-1" 86400) .go =
          some (firstTick loop .default 86400,
            .returned (.error (.leaseExpired "lease-1")))) ∧
    ∀ loop ∈ [KeepAliveLoop.selfRegister, .javaKeepAlive],
      ¬ loop.period 1 < (LeaseConfig.default.negotiate 1).toNat * second ∧
        LeasePc.advance .default (firstTick loop .default 1)
            (.renew "lease-1" 1) .go =
          some (firstTick loop .default 1,
            .returned (.error (.leaseExpired "lease-1"))) := by
  constructor
  · intro loop
    cases loop with
    | selfRegister | goKeepAlive | javaKeepAlive => exact ⟨by decide, rfl⟩
  · intro loop hloop
    cases loop with
    | selfRegister => exact ⟨by decide, rfl⟩
    | goKeepAlive => exact absurd hloop (by decide)
    | javaKeepAlive => exact ⟨by decide, rfl⟩

end Coordin8

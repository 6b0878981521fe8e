import Coordin8.Lease.KeepAlive

/-!
# The terms of a lease

What `LeaseManager::grant` and `renew` promise about the lease they return: its
term respects the policy, its expiry is the time of the call plus the term, and
it can always be represented.  The two limits of a policy come from different
variables of the environment; nothing orders them.  A request that leaves the
term to the server is answered with the preferred one, which is not compared
with the cap.
-/

namespace Coordin8

/-- Both limits of the policy are terms of at most a hundred years. -/
def LeaseConfig.Representable (config : LeaseConfig) : Prop :=
  config.preferredTtl ≤ maxRepresentableTtlSecs ∧
    ∀ cap, config.maxTtl = some cap → cap ≤ maxRepresentableTtlSecs

/-- The preferred term, when the request asks for it, is within the cap. -/
def LeaseConfig.PrefersWithin (config : LeaseConfig) (requested : UInt64) :
    Prop :=
  requested = leaseAny → ∀ cap, config.maxTtl = some cap →
    config.preferredTtl ≤ cap

/-- The first instant of the year 10000. -/
def yearTenThousand : Timestamp := 253402300800 * second

/-- The terms of a lease that was granted or renewed at the time `now` for the
term `requested`.  The cap holds exactly where the preferred term does not pass
it. -/
structure Terms (config : LeaseConfig) (requested : UInt64) (now : Timestamp)
    (lease : LeaseRecord) : Prop where
  capped : (∀ cap, config.maxTtl = some cap → lease.ttlSeconds ≤ cap) ↔
    config.PrefersWithin requested
  forever : lease.ttlSeconds = leaseForever → config.maxTtl = none
  finite : lease.ttlSeconds ≠ leaseForever →
    lease.expiresAt = now + lease.ttlSeconds.toNat * second
  unexpired : lease.ttlSeconds = leaseForever →
    ∀ now', lease.isExpired now' = false

section Negotiate

variable {config : LeaseConfig} {requested ttl : UInt64}

theorem maxRepresentableTtlSecs_toNat :
    maxRepresentableTtlSecs.toNat = 3153600000 := by decide

theorem ne_forever_of_le (h : ttl ≤ maxRepresentableTtlSecs) :
    ttl ≠ leaseForever := by
  rintro rfl
  exact absurd h (by decide)

/-- What is granted is a lease without end, where no cap forbids it, or a term
of at most a hundred years. -/
theorem negotiate_representable (hrep : config.Representable)
    (requested : UInt64) :
    (config.maxTtl = none ∧ config.negotiate requested = leaseForever) ∨
      config.negotiate requested ≤ maxRepresentableTtlSecs := by
  unfold LeaseConfig.negotiate
  split
  · exact .inr hrep.1
  · split
    · cases hcap : config.maxTtl with
      | none => exact .inl ⟨rfl, rfl⟩
      | some cap => exact .inr (hrep.2 cap hcap)
    · cases hcap : config.maxTtl with
      | none =>
          dsimp only
          split
          · exact .inl ⟨rfl, rfl⟩
          · next hle => exact .inr (UInt64.not_lt.mp hle)
      | some cap =>
          have hle := UInt64.le_iff_toNat_le.mp (hrep.2 cap hcap)
          refine .inr (UInt64.le_iff_toNat_le.mpr ?_)
          rw [toNat_min]
          omega

/-- A cap binds every request that does not leave the term to the server. -/
theorem negotiate_le_cap_iff :
    (∀ cap, config.maxTtl = some cap → config.negotiate requested ≤ cap) ↔
      config.PrefersWithin requested := by
  by_cases hany : requested = leaseAny
  · rw [LeaseConfig.negotiate, if_pos hany]
    exact ⟨fun h _ => h, fun h => h hany⟩
  · refine ⟨fun _ h => absurd h hany, fun _ cap hcap => ?_⟩
    have hpos : 1 ≤ requested.toNat :=
      Nat.one_le_iff_ne_zero.mpr fun h0 => hany (UInt64.toNat.inj h0)
    rw [UInt64.le_iff_toNat_le, negotiate_capped hcap hpos]
    exact Nat.min_le_right _ _

end Negotiate

section Expiry

variable {config : LeaseConfig} {now : Int} {ttl requested : UInt64}

theorem expiryFor_of_le (hnow : now < yearTenThousand)
    (hle : ttl ≤ maxRepresentableTtlSecs) :
    expiryFor now ttl = .ok (now + ttl.toNat * second) := by
  have hsecs := UInt64.le_iff_toNat_le.mp hle
  rw [maxRepresentableTtlSecs_toNat] at hsecs
  have hfits : now + ttl.toNat * second ≤ maxUtc := by
    change now < 253402300800 * 10 ^ 9 at hnow
    change now + ttl.toNat * 10 ^ 9 ≤ 8210266876799 * 10 ^ 9 + 999999999
    omega
  have hdelta : ttl.toNat ≤ (2 ^ 63 - 1) / 1000 := by omega
  rw [expiryFor, if_neg (ne_forever_of_le hle), checkedExpiry, if_pos hdelta]
  simp only [second] at hfits ⊢
  rw [if_pos hfits]

theorem exists_expiryFor (hrep : config.Representable)
    (hnow : now < yearTenThousand) (requested : UInt64) :
    ∃ expiry, expiryFor now (config.negotiate requested) = .ok expiry := by
  rcases negotiate_representable hrep requested with ⟨-, hforever⟩ | hle
  · exact ⟨maxUtc, by rw [hforever, expiryFor, if_pos rfl]⟩
  · exact ⟨_, expiryFor_of_le hnow hle⟩

theorem Terms.of_expiryFor {lease : LeaseRecord} (hrep : config.Representable)
    (httl : lease.ttlSeconds = config.negotiate requested)
    (hexpiry : expiryFor now (config.negotiate requested) =
      .ok lease.expiresAt) :
    Terms config requested now lease where
  capped := httl ▸ negotiate_le_cap_iff
  forever hforever := by
    rcases negotiate_representable hrep requested with ⟨hcap, -⟩ | hle
    · exact hcap
    · exact absurd (httl.symm.trans hforever) (ne_forever_of_le hle)
  finite hfinite := by
    rw [httl] at hfinite ⊢
    exact expiryFor_finite hexpiry hfinite
  unexpired hforever now' := by
    rw [LeaseRecord.isExpired, if_pos hforever]

end Expiry

/-! ## Grants and renewals -/

section Calls

variable {config : LeaseConfig} {requested : UInt64} {l : Landlord}

theorem grant_terms (hrep : config.Representable)
    (hnow : l.now < yearTenThousand) (uuid resourceId : String) :
    ∃ lease l', l.grant config uuid resourceId requested = .ok (lease, l') ∧
      Terms config requested l.now lease := by
  obtain ⟨expiry, hexpiry⟩ := exists_expiryFor hrep hnow requested
  simp only [Landlord.grant, InMemoryLeaseStore.create, hexpiry]
  exact ⟨_, _, rfl, Terms.of_expiryFor hrep rfl hexpiry⟩

/-- The store renews the lease, unless it was removed after it was found
alive. -/
theorem renewStore_terms (hrep : config.Representable)
    (hnow : l.now < yearTenThousand) (leaseId : String) :
    (l.leases.get leaseId = none ∧
        (LeasePc.renewStore leaseId requested).advance config l .go =
          some (l, .returned (.error (.leaseNotFound leaseId)))) ∨
      ∃ lease l', (LeasePc.renewStore leaseId requested).advance config l .go =
          some (l', .returned (.ok (some lease))) ∧
        l'.leases.get leaseId = some lease ∧ Terms config requested l.now lease := by
  obtain ⟨expiry, hexpiry⟩ := exists_expiryFor hrep hnow requested
  simp only [LeasePc.advance, InMemoryLeaseStore.renew, InMemoryLeaseStore.get,
    hexpiry]
  cases hget : l.leases.leases[leaseId]? with
  | none => exact .inl ⟨rfl, rfl⟩
  | some lease =>
      refine .inr ⟨_, _, rfl, ?_, Terms.of_expiryFor hrep rfl hexpiry⟩
      simp

end Calls

/-- Under a policy whose limits are representable, and before the year 10000,
every grant succeeds, and a renewal that found its lease alive succeeds or finds
that the lease was removed meanwhile.  The lease returned has the terms
promised. -/
theorem leases_have_terms (config : LeaseConfig) (hrep : config.Representable)
    (requested : UInt64) (l : Landlord) (hnow : l.now < yearTenThousand) :
    (∀ uuid resourceId, ∃ lease l',
        l.grant config uuid resourceId requested = .ok (lease, l') ∧
          Terms config requested l.now lease) ∧
      (∀ leaseId lease, l.leases.get leaseId = some lease →
        lease.isExpired l.now = false →
          (LeasePc.renew leaseId requested).advance config l .go =
            some (l, .renewStore leaseId requested)) ∧
      ∀ leaseId, (l.leases.get leaseId = none ∧
          (LeasePc.renewStore leaseId requested).advance config l .go =
            some (l, .returned (.error (.leaseNotFound leaseId)))) ∨
        ∃ lease l',
          (LeasePc.renewStore leaseId requested).advance config l .go =
            some (l', .returned (.ok (some lease))) ∧
          l'.leases.get leaseId = some lease ∧ Terms config requested l.now lease := by
  refine ⟨grant_terms hrep hnow, ?_, renewStore_terms hrep hnow⟩
  intro leaseId lease hget halive
  simp only [LeasePc.advance, hget, halive, Bool.false_eq_true, if_false]

/-- A grant for a request without a term, under the default policy. -/
theorem leases_have_terms_default :
    ∃ lease l', Landlord.new.grant .default "l" "r" leaseAny =
        .ok (lease, l') ∧ Terms .default leaseAny 0 lease ∧
      lease.ttlSeconds ≤ 3600 := by
  have hrep : LeaseConfig.default.Representable :=
    ⟨by decide, by rintro cap ⟨⟩; decide⟩
  have hpref : LeaseConfig.default.PrefersWithin leaseAny := by
    rintro - cap ⟨⟩
    decide
  obtain ⟨lease, l', hgrant, hterms⟩ :=
    (leases_have_terms .default hrep leaseAny .new (by decide)).1 "l" "r"
  exact ⟨lease, l', hgrant, hterms, hterms.capped.mpr hpref 3600 rfl⟩

/-- A cap of one minute for one kind of lease, with the preferred term left at
its default of five: the request without a term gets the five minutes. -/
theorem preferred_exceeds_cap :
    ∃ lease l', Landlord.new.grant ⟨some 60, 300⟩ "l" "txn:1" leaseAny =
        .ok (lease, l') ∧ lease.ttlSeconds = 300 ∧ ¬ lease.ttlSeconds ≤ 60 :=
  ⟨⟨"l", "txn:1", 0, 300 * second, 300⟩, _, rfl, rfl, by decide⟩

end Coordin8

import IndexDtf.Folio.Cranking
import IndexDtf.Folio.PokeTotal

/-!
# IndexDtf.Folio.TotalSupply

What the instructions on fees do to the total supply of a folio: its minted shares and the
pending ones.

* `crankFeeDistribution_total` — a crank mints what it takes off the counter;
* `distributeFees_total_iff` — a distribution leaves the total as the poke made it, unless
  there are no recipients and the DAO is minted the whole shares of both pending amounts:
  then what the DAO has of a share is dropped.
-/

namespace IndexDtf

open Lib Decimal

namespace Folio

variable {folio after : Folio} {split : FeeSplit}

/-- The pending part of the total supply. -/
def pendingShares (folio : Folio) : ℕ :=
  folio.daoPendingFeeShares + folio.feeRecipientsPendingFeeShares
    + folio.feeRecipientsPendingFeeSharesToBeMinted

theorem totalSupply_eq (folio : Folio) (supply : ℕ) :
    folio.totalSupply supply = supply * d9 + folio.pendingShares := by
  simp only [totalSupply, pendingShares, Nat.add_assoc]

theorem wholeUnits_eq_zero {scaled : ℕ} : wholeUnits scaled = 0 ↔ scaled < d9 := by
  have hd9 : 0 < d9 := by decide
  have hmax : u64Max ≠ 0 := by decide
  rw [wholeUnits, Nat.min_eq_zero_iff, or_iff_left hmax, Nat.div_eq_zero_iff_lt hd9]

/-- With recipients nothing is lost. -/
theorem pendingShares_shared (hsplit : folio.feeSplit true = .ok split)
    (htaken : folio.takeFees split true = .ok after) :
    split.rawDao * d9 + after.pendingShares = folio.pendingShares := by
  obtain ⟨hminus, -, hraw⟩ := feeSplit_spec hsplit
  obtain ⟨hdao, hrecipients, rfl⟩ := takeFees_spec htaken
  have hdao := hdao rfl
  simp only [pendingShares, if_true]
  omega

/-- Without recipients the DAO gets the whole shares of both amounts. -/
theorem pendingShares_unshared (hsplit : folio.feeSplit false = .ok split)
    (htaken : folio.takeFees split false = .ok after) (hfits : split.rawDao ≤ u64Max) :
    split.rawDao * d9 + after.pendingShares = folio.pendingShares ↔
      folio.feeRecipientsPendingFeeShares < d9 ∨ d9 ∣ folio.daoPendingFeeShares := by
  have hd9 : 0 < d9 := by decide
  obtain ⟨hminus, -, hraw⟩ := feeSplit_spec hsplit
  obtain ⟨-, hrecipients, rfl⟩ := takeFees_spec htaken
  simp only [Bool.false_eq_true, if_false] at hraw
  simp only [pendingShares, Bool.false_eq_true, if_false, Nat.add_zero]
  rw [← wholeUnits_eq_zero]
  have hdao := wholeUnits_mul_le folio.daoPendingFeeShares
  by_cases hnone : wholeUnits folio.feeRecipientsPendingFeeShares = 0
  · rw [hnone, Nat.add_zero] at hraw
    rw [hnone, Nat.zero_mul] at hminus
    refine iff_of_true ?_ (.inl hnone)
    rw [hraw, hminus]
    omega
  · -- the DAO's whole shares are not cut off, and what is left of one is less than is taken
    have hwhole : wholeUnits folio.daoPendingFeeShares = folio.daoPendingFeeShares / d9 := by
      rw [hraw, wholeUnits] at hfits
      rw [wholeUnits]
      omega
    have hmod := Nat.div_add_mod' folio.daoPendingFeeShares d9
    have hlt := Nat.mod_lt folio.daoPendingFeeShares hd9
    have hone : d9 ≤ wholeUnits folio.feeRecipientsPendingFeeShares * d9 :=
      Nat.le_mul_of_pos_left d9 (Nat.pos_of_ne_zero hnone)
    rw [or_iff_right hnone, Nat.dvd_iff_mod_eq_zero, hraw, hminus, Nat.add_mul, hwhole]
    rw [hminus] at hrecipients
    omega

end Folio

namespace Books

variable {T : TokenProgram} {b b' : Books T} {f user : Pubkey}

/-- The total supply of a folio. -/
def totalSupply (b : Books T) (f : Pubkey) : ℕ :=
  (b.folio f).elim 0 (·.totalSupply (T.supply b.ledger f))

theorem totalSupply_of {folio : Folio} (h : b.folio f = some folio) :
    b.totalSupply f = folio.totalSupply (T.supply b.ledger f) := by
  rw [totalSupply, h, Option.elim_some]

/-- What a crank mints adds to the supply. -/
theorem mintAll_supply (hT : T.CountsSupply) {l l' : T.Ledger} {paid : List SlotPayment}
    (h : mintAll f l paid = some l') :
    T.supply l' = Function.update (T.supply l) f (T.supply l f + FeeDistribution.paidTotal paid) ∧
      (paid ≠ [] → T.supply l f + FeeDistribution.paidTotal paid ≤ u64Max) := by
  induction paid generalizing l with
  | nil =>
      cases h
      exact ⟨(Function.update_eq_self ..).symm, fun hne => absurd rfl hne⟩
  | cons p rest ih =>
      simp only [mintAll, Option.bind_eq_bind, Option.bind_eq_some_iff] at h
      obtain ⟨l₁, hmint, hrest⟩ := h
      obtain ⟨hsupply, hfits⟩ := hT.mintTo hmint
      obtain ⟨hsupply', hfits'⟩ := ih hrest
      have hself : T.supply l₁ f = T.supply l f + p.amount := by
        rw [hsupply, Function.update_self]
      have htotal : T.supply l f + FeeDistribution.paidTotal (p :: rest)
          = T.supply l₁ f + FeeDistribution.paidTotal rest := by
        simp only [FeeDistribution.paidTotal, List.map_cons, List.sum_cons, hself, Nat.add_assoc]
      rw [htotal]
      refine ⟨by rw [hsupply', hsupply, Function.update_idem], fun _ => ?_⟩
      cases rest with
      | nil => exact hself ▸ hfits
      | cons q rest => exact hfits' (List.cons_ne_nil _ _)

/-- **A crank leaves the total supply as it was.** -/
theorem crankFeeDistribution_total (hT : T.CountsSupply) {index : ℕ} {indices : List ℕ}
    {recipients : List T.Address}
    (h : b.crankFeeDistribution f index indices recipients = .ok b') :
    b'.totalSupply f = b.totalSupply f := by
  obtain ⟨before, d, state, paid, taken, hfound, -, -, -, -, hmint, htaken, hcovered, hafter⟩ :=
    crankFeeDistribution_spec h
  obtain ⟨hsupply, hfits⟩ := mintAll_supply hT hmint
  -- what is minted fits `u64`, so all of it is taken off the counter
  have hpaid : FeeDistribution.paidTotal paid * d9 ≤ u128Max := by
    cases paid with
    | nil => exact Nat.zero_le _
    | cons p rest =>
        have hle := hfits (List.cons_ne_nil _ _)
        exact (Nat.mul_le_mul_right d9 (show _ ≤ u64Max by omega)).trans (by decide)
  rw [Nat.min_eq_left hpaid] at htaken
  have hfound' := congrArg (fun s => s.folio f) hafter
  simp only [folios, Function.update_self] at hfound'
  rw [totalSupply_of hfound, totalSupply_of hfound', Folio.totalSupply_eq, Folio.totalSupply_eq,
    hsupply, Function.update_self, Nat.add_mul]
  simp only [Folio.pendingShares]
  omega

/-- The condition under which a distribution from a poked folio loses nothing. -/
def KeepsTotal (poked : Folio) (recipients : FeeRecipients) : Prop :=
  recipients.isEmpty = false ∨ poked.feeRecipientsPendingFeeShares < d9 ∨
    d9 ∣ poked.daoPendingFeeShares

instance (poked : Folio) (recipients : FeeRecipients) : Decidable (KeepsTotal poked recipients) :=
  inferInstanceAs (Decidable (_ ∨ _ ∨ _))

/-- The total supply after a distribution is the one after its poke, exactly when nothing
is lost. -/
theorem distributeFees_total_iff (hT : T.CountsSupply) {index : ℕ}
    (h : b.distributeFees f user index = .ok b') :
    ∃ before, b.folio f = some before ∧ ∃ poked, b.poked f before = .ok poked ∧
      ∃ recipients, b.feeRecipients f = some recipients ∧
      (b'.totalSupply f = poked.totalSupply (T.supply b.ledger f) ↔ KeepsTotal poked recipients) := by
  simp only [distributeFees, bind_eq_ok, Except.ok.injEq, load_eq_ok, invoke_eq_ok] at h
  obtain ⟨before, hbefore, recipients, hrecipients, _, -, _, -, _, -, config, -, poked, hpoke, split,
    hsplit, l', hmint, after, htaken, rfl⟩ := h
  refine ⟨before, (validateFolio_eq_ok.mp hbefore).1, poked, hpoke, recipients, hrecipients, ?_⟩
  obtain ⟨hsupply, hfits⟩ := hT.mintTo hmint
  rw [totalSupply_of (Function.update_self ..), Folio.totalSupply_eq, Folio.totalSupply_eq, hsupply,
    Function.update_self, Nat.add_mul, Nat.add_assoc, Nat.add_left_cancel_iff, KeepsTotal]
  cases hempty : recipients.isEmpty with
  | false =>
      rw [hempty] at hsplit htaken
      exact iff_of_true (Folio.pendingShares_shared hsplit htaken) (.inl rfl)
  | true =>
      rw [hempty] at hsplit htaken
      rw [Folio.pendingShares_unshared hsplit htaken (by omega)]
      exact (or_iff_right Bool.noConfusion).symm

/-- **Handing out fees keeps the total supply.** A distribution does exactly when it has
recipients, or those are due no whole share, or the DAO is due whole shares only; a crank
always does. -/
theorem total_conserved_iff (hT : T.CountsSupply) (b : Books T) (f : Pubkey) :
    (∀ user index b', b.distributeFees f user index = .ok b' →
      ∃ before, b.folio f = some before ∧ ∃ poked, b.poked f before = .ok poked ∧
        ∃ recipients, b.feeRecipients f = some recipients ∧
        (b'.totalSupply f = poked.totalSupply (T.supply b.ledger f) ↔
          KeepsTotal poked recipients)) ∧
    ∀ index indices recipients b', b.crankFeeDistribution f index indices recipients = .ok b' →
      b'.totalSupply f = b.totalSupply f :=
  ⟨fun _ _ _ h => distributeFees_total_iff hT h, fun _ _ _ _ h => crankFeeDistribution_total hT h⟩

end Books

namespace World

open Books

/-- Folio 5 without fee recipients, a third of whose fees are the DAO's. -/
def unshared : World TokenProgram.simple :=
  run step (genesis SimpleLedger.empty 1000000)
    [.admin (.setDaoFeeConfig admin (some 9) (some 333333333333333333) (some 0)),
      .owner (.initFolio 5 3 0 10000000000000000 60 []),
      .outside (.openAccount (.external 3) 7),
      .outside (.issue (.external 3) 7 1000),
      .outside (.openAccount (.folio 5) 7),
      .outside (.openAccount (.external 3) 5),
      .outside (.openAccount (.external 9) 5),
      .owner (.addToBasket 5 3 [⟨7, (.external 3, 7), (.folio 5, 7)⟩] [600] (some 1000000000)),
      .owner (.updateFolio 5 3 ⟨none, none, none, none, [], [], none⟩),
      .user (.addToPendingBasket 5 3 [⟨7, (.external 3, 7), (.folio 5, 7)⟩] [100]),
      .user (.mintFolioToken 5 3 100000000 none)]

/-- With recipients a distribution of the same fees keeps the total. -/
theorem total_conserved_shared :
    ∃ b', (undistributed 500000000000000000).books.distributeFees 5 3 1 = .ok b' ∧
      b'.totalSupply 5 = (undistributed 500000000000000000).books.totalSupply 5 := by
  have hok : ∃ b', (undistributed 500000000000000000).books.distributeFees 5 3 1 = .ok b' ∧ True := by
    decide +kernel
  have hpoked : ∃ before, (undistributed 500000000000000000).books.folio 5 = some before ∧
      (undistributed 500000000000000000).books.poked 5 before = .ok before := by decide +kernel
  have hrecipients : ∃ r, (undistributed 500000000000000000).books.feeRecipients 5 = some r ∧
      r.isEmpty = false := by decide +kernel
  obtain ⟨b', hb', -⟩ := hok
  obtain ⟨before, hbefore, poked, hpoke, r, hr, hiff⟩ :=
    (total_conserved_iff TokenProgram.simple_countsSupply _ 5).1 3 1 b' hb'
  obtain ⟨before', hbefore', hpoke'⟩ := hpoked
  obtain rfl : before = before' := Option.some.inj (hbefore.symm.trans hbefore')
  obtain rfl : poked = before := Except.ok.inj (hpoke.symm.trans hpoke')
  obtain ⟨r', hr', hempty⟩ := hrecipients
  obtain rfl : r = r' := Option.some.inj (hr.symm.trans hr')
  exact ⟨b', hb', (hiff.mpr (.inl hempty)).trans (totalSupply_of hbefore).symm⟩

/-- The DAO is minted 999999 of the million shares, and of the 333333.333333334 that were
its own the fraction is dropped with the rest. -/
theorem total_dropped_without_recipients :
    unshared.Reachable ∧
      ∃ b', unshared.books.distributeFees 5 3 1 = .ok b' ∧
        ∃ before, unshared.books.folio 5 = some before ∧
        ∃ poked, unshared.books.poked 5 before = .ok poked ∧
          b'.totalSupply 5 + 333333334
            = poked.totalSupply (TokenProgram.simple.supply unshared.books.ledger 5) :=
  ⟨reachable_genesis .., by decide +kernel⟩

end World

end IndexDtf

import IndexDtf.Folio.FeeSpec
import IndexDtf.Folio.PokeTotal

/-!
# IndexDtf.Folio.FolioStep

What an instruction can do to the folio accounts and those of their fees. `FolioStep`
has one case for each kind of change; an instruction makes any number of them, one
after the other (`update_folio` distributes the fees, then changes the folio). The
invariants of the folios and the fees are proved from these cases.
-/

namespace IndexDtf

open Lib Decimal

/-- The accounts of the folios and of their fees, and the clock. -/
structure FolioBooks where
  now : ℕ
  folio : Pubkey → Option Folio
  feeRecipients : Pubkey → Option FeeRecipients
  feeDistribution : Pubkey × ℕ → Option FeeDistribution
  createdAt : Pubkey → ℕ

/-- A change of a folio account that leaves the fees to be minted alone. A folio that
is initializing afterwards was so before, and was not poked. -/
structure FolioChange (before after : Folio) : Prop where
  toBeMinted : after.feeRecipientsPendingFeeSharesToBeMinted
    = before.feeRecipientsPendingFeeSharesToBeMinted
  lastPoke : before.lastPoke ≤ after.lastPoke
  initializing : after.status = .Initializing →
    before.status = .Initializing ∧ after.lastPoke = before.lastPoke

/-- The fee recipients as `update_fee_recipients` admits them. -/
structure FeeRecipients.Valid (recipients : List FeeRecipient) : Prop where
  total : (recipients.map (·.portion)).sum = maxFeeRecipientsPortion
  distinct : ((recipients.map (·.recipient)).filter (· ≠ Pubkey.default)).Nodup

/-- A change of the folio accounts and those of the fees, with the payments to fee
recipients it makes. -/
inductive FolioStep (s : FolioBooks) : List FeePayment → FolioBooks → Prop
  | elapsed (seconds : ℕ) : FolioStep s [] { s with now := s.now + seconds }
  | created (f : Pubkey) (folio : Folio) (fresh : s.folio f = none)
      (status : folio.status = .Initializing) (lastPoke : folio.lastPoke = s.now)
      (toBeMinted : folio.feeRecipientsPendingFeeSharesToBeMinted = 0) :
      FolioStep s [] { s with
        folio := Function.update s.folio f (some folio)
        createdAt := Function.update s.createdAt f s.now }
  | changed (f : Pubkey) (before after : Folio) (found : s.folio f = some before)
      (change : FolioChange before after) :
      FolioStep s [] { s with folio := Function.update s.folio f (some after) }
  /-- The fee recipients are initialized or updated. -/
  | recipients (f : Pubkey) (after : FeeRecipients) (isFolio : s.folio f ≠ none)
      (index : after.distributionIndex
        = ((s.feeRecipients f).getD FeeRecipients.init).distributionIndex)
      (valid : after = (s.feeRecipients f).getD FeeRecipients.init ∨
        FeeRecipients.Valid after.feeRecipients) :
      FolioStep s [] { s with feeRecipients := Function.update s.feeRecipients f (some after) }
  /-- `distribute_fees`. -/
  | distributed (f user : Pubkey) (before poked after : Folio) (recipients : FeeRecipients)
      (split : FeeSplit) (found : s.folio f = some before)
      (foundRecipients : s.feeRecipients f = some recipients)
      (fresh : s.feeDistribution (f, recipients.distributionIndex + 1) = none)
      (poke : FolioChange before poked) (status : poked.status ≠ .Initializing)
      (split_eq : poked.feeSplit (!recipients.isEmpty) = .ok split)
      (taken : poked.takeFees split (!recipients.isEmpty) = .ok after) :
      FolioStep s [] { s with
        folio := Function.update s.folio f (some after)
        feeRecipients := Function.update s.feeRecipients f
          (some { recipients with distributionIndex := recipients.distributionIndex + 1 })
        feeDistribution := Function.update s.feeDistribution (f, recipients.distributionIndex + 1)
          (if !recipients.isEmpty then
            some ⟨recipients.distributionIndex + 1, user, split.scaledRecipientsMinusDust,
              recipients.feeRecipients⟩
          else none) }
  /-- `crank_fee_distribution`. -/
  | cranked (f : Pubkey) (index : ℕ) (before : Folio) (d : FeeDistribution)
      (indices : List ℕ) (paid : List SlotPayment) (state : List FeeRecipient) (taken : ℕ)
      (found : s.folio f = some before) (status : before.status ≠ .Initializing)
      (foundDistribution : s.feeDistribution (f, index) = some d)
      (pays : d.pay d.feeRecipientsState indices = .ok (state, paid))
      (taken_eq : taken = min (FeeDistribution.paidTotal paid * d9) u128Max)
      (covered : taken ≤ before.feeRecipientsPendingFeeSharesToBeMinted) :
      FolioStep s (paid.map (FeePayment.mk (f, index))) { s with
        folio := Function.update s.folio f (some { before with
          feeRecipientsPendingFeeSharesToBeMinted :=
            before.feeRecipientsPendingFeeSharesToBeMinted - taken })
        feeDistribution := Function.update s.feeDistribution (f, index)
          (if FeeDistribution.isFullyDistributed { d with feeRecipientsState := state } then none
          else some { d with feeRecipientsState := state }) }

/-- Changes one after the other. -/
abbrev FolioSteps : FolioBooks → List FeePayment → FolioBooks → Prop := Steps FolioStep

/-- A folio stays. -/
theorem FolioStep.isFolio {s s' : FolioBooks} {log : List FeePayment} {f : Pubkey}
    (h : FolioStep s log s') (hf : s.folio f ≠ none) : s'.folio f ≠ none := by
  -- a case that writes a folio account writes `some`
  have update (g : Pubkey) (folio : Folio) :
      Function.update s.folio g (some folio) f ≠ none := by
    by_cases hg : f = g
    · rw [hg, Function.update_self]
      exact Option.some_ne_none folio
    · rwa [Function.update_of_ne hg]
  cases h with
  | elapsed => exact hf
  | created => exact update _ _
  | changed => exact update _ _
  | recipients => exact hf
  | distributed => exact update _ _
  | cranked => exact update _ _

theorem FolioSteps.isFolio {s s' : FolioBooks} {log : List FeePayment} {f : Pubkey}
    (h : FolioSteps s log s') (hf : s.folio f ≠ none) : s'.folio f ≠ none :=
  h.keeps (I := fun s => s.folio f ≠ none) (fun _ _ _ hs hstep => hstep.isFolio hs) hf

namespace FeeRecipients

/-- An update keeps the index and leaves valid recipients. -/
theorem updateFeeRecipients_spec {r r' : FeeRecipients} {toAdd : List FeeRecipient}
    {toRemove : List Pubkey} (h : r.updateFeeRecipients toAdd toRemove = .ok r') :
    r'.distributionIndex = r.distributionIndex ∧ Valid r'.feeRecipients := by
  simp only [updateFeeRecipients, validateRecipients, bind_eq_ok, checkCondition_eq_ok,
    fitting_eq_ok, Except.ok.injEq] at h
  obtain ⟨_, -, _, ⟨_, ⟨-, rfl⟩, _, htotal, hdistinct⟩, rfl⟩ := h
  exact ⟨rfl, htotal, hdistinct⟩

end FeeRecipients

namespace Folio

variable {folio folio' : Folio} {supply t : ℕ} {fee : DaoFee}

/-- A poke adds to the two pending amounts and brings `last_poke` up to the day. -/
theorem poke_spec (h : folio.poke supply t fee = .ok folio') :
    ∃ dao recipients, folio.daoPendingFeeShares ≤ dao ∧
      folio.feeRecipientsPendingFeeShares ≤ recipients ∧
      folio' = { folio with
        daoPendingFeeShares := dao, feeRecipientsPendingFeeShares := recipients
        lastPoke := max folio.lastPoke (dayStart t) } := by
  simp only [poke, bind_eq_ok, getAccountFeeUntil_eq_ok] at h
  obtain ⟨_, ⟨-, rfl⟩, h⟩ := h
  split at h
  · next hday =>
    cases h
    refine ⟨_, _, le_rfl, le_rfl, ?_⟩
    rw [Nat.max_eq_left (Nat.le_of_sub_eq_zero hday)]
  · next hday =>
    simp only [bind_eq_ok, Prod.exists, checkedAddU128_eq_ok, Except.ok.injEq] at h
    obtain ⟨_, _, -, dao, -, _, ⟨-, rfl⟩, recipients, -, _, ⟨-, rfl⟩, rfl⟩ := h
    refine ⟨_, _, Nat.le_add_right _ dao, Nat.le_add_right _ recipients, ?_⟩
    rw [Nat.max_eq_right (by omega)]

theorem poke_change (hstatus : folio.status ≠ .Initializing)
    (h : folio.poke supply t fee = .ok folio') : FolioChange folio folio' := by
  obtain ⟨dao, recipients, -, -, rfl⟩ := poke_spec h
  exact ⟨rfl, Nat.le_max_left .., fun e => absurd e hstatus⟩

end Folio

theorem FolioChange.refl (folio : Folio) : FolioChange folio folio :=
  ⟨rfl, le_rfl, fun h => ⟨h, rfl⟩⟩

theorem FolioChange.trans {a b c : Folio} (h : FolioChange a b) (h' : FolioChange b c) :
    FolioChange a c where
  toBeMinted := h'.toBeMinted.trans h.toBeMinted
  lastPoke := h.lastPoke.trans h'.lastPoke
  initializing := fun hc => by
    obtain ⟨hb, hpoke⟩ := h'.initializing hc
    obtain ⟨ha, hpoke'⟩ := h.initializing hb
    exact ⟨ha, hpoke.trans hpoke'⟩

namespace Books

variable {T : TokenProgram} {b b' : Books T} {f user : Pubkey}

/-- The accounts of the folios among the books. -/
def folios (b : Books T) : FolioBooks where
  now := b.now
  folio := b.folio
  feeRecipients := b.feeRecipients
  feeDistribution := b.feeDistribution
  createdAt := b.createdAt

/-- One change of a folio account. -/
theorem changed_step {before after : Folio} (found : b.folio f = some before)
    (change : FolioChange before after) (h : b'.folios = (b.setFolio f after).folios) :
    FolioSteps b.folios [] b'.folios := by
  rw [h]
  exact .single (.changed f before after found change)

/-- Most instructions are refused by a folio that is initializing. -/
theorem initialized_of_validateFolio {before : Folio} {statuses : List FolioStatus}
    (hbefore : b.validateFolio f statuses = .ok before)
    (hstatuses : FolioStatus.Initializing ∉ statuses) :
    b.folio f = some before ∧ before.status ≠ .Initializing := by
  obtain ⟨hfound, -, hstatus⟩ := validateFolio_eq_ok.mp hbefore
  exact ⟨hfound, fun e => hstatuses (e ▸ hstatus)⟩

theorem poked_change {before after : Folio} (hstatus : before.status ≠ .Initializing)
    (h : b.poked f before = .ok after) : FolioChange before after := by
  simp only [poked, bind_eq_ok] at h
  obtain ⟨fee, -, hpoke⟩ := h
  exact Folio.poke_change hstatus hpoke

/-! ### The instructions of users -/

theorem toAssets_change {process : PendingBasketType} {pending pending' : UserPendingBasket}
    {basket basket' : FolioBasket} {before after : Folio} {rawShares rawSupply : ℕ} {fee : DaoFee}
    {minimumOut : List MinimumOutForTokenAmount} (hstatus : before.status ≠ .Initializing)
    (h : pending.toAssets rawShares rawSupply basket before process b.now fee minimumOut
      = .ok (pending', basket', after)) : FolioChange before after := by
  simp only [UserPendingBasket.toAssets, bind_eq_ok, Prod.exists, Except.ok.injEq,
    Prod.mk.injEq] at h
  obtain ⟨_, hpoke, _, -, _, -, _, _, -, -, -, rfl⟩ := h
  exact Folio.poke_change hstatus hpoke

theorem calculateFeesForMinting_change {before after : Folio} {rawShares fees : ℕ} {fee : DaoFee}
    (h : before.calculateFeesForMinting rawShares fee = .ok (after, fees)) :
    FolioChange before after := by
  simp only [Folio.calculateFeesForMinting, bind_eq_ok, Except.ok.injEq, Prod.mk.injEq] at h
  obtain ⟨_, -, _, -, _, -, _, -, _, -, _, -, _, -, _, -, _, -, _, -, rfl, -⟩ := h
  exact ⟨rfl, le_rfl, fun e => ⟨e, rfl⟩⟩

theorem user_folios {i : UserInstruction T} (h : b.user i = .ok b') :
    FolioSteps b.folios [] b'.folios := by
  cases i with
  | addToPendingBasket f user accounts rawAmounts =>
      simp only [Books.user, addToPendingBasket, bind_eq_ok, Prod.exists, Except.ok.injEq] at h
      obtain ⟨_, -, _, -, _, -, _, _, -, _, -, rfl⟩ := h
      exact .refl _
  | removeFromPendingBasket f user accounts rawAmounts =>
      simp only [Books.user, removeFromPendingBasket, takeFromPendingBasket, bind_eq_ok,
        Prod.exists, Except.ok.injEq] at h
      obtain ⟨_, -, _, -, _, -, _, -, _, _, -, _, -, rfl⟩ := h
      exact .refl _
  | mintFolioToken f user rawShares minRawShares =>
      simp only [Books.user, mintFolioToken, bind_eq_ok, Prod.exists, Except.ok.injEq] at h
      obtain ⟨before, hbefore, _, -, _, -, _, -, _, _, poked, hassets, after, _, hfees, _, -, _, -, _,
        -, rfl⟩ := h
      obtain ⟨hfound, hstatus⟩ := initialized_of_validateFolio hbefore (by decide)
      have hpoked := toAssets_change hstatus hassets
      exact changed_step hfound (hpoked.trans (calculateFeesForMinting_change hfees)) rfl
  | burnFolioToken f user rawShares minimumOut =>
      simp only [Books.user, burnFolioToken, bind_eq_ok, Prod.exists, Except.ok.injEq] at h
      obtain ⟨before, hbefore, _, -, _, -, _, -, _, _, poked, hassets, _, -, rfl⟩ := h
      obtain ⟨hfound, hstatus⟩ := initialized_of_validateFolio hbefore (by decide)
      exact changed_step hfound (toAssets_change hstatus hassets) rfl
  | redeemFromPendingBasket f user accounts rawAmounts =>
      simp only [Books.user, redeemFromPendingBasket, takeFromPendingBasket, bind_eq_ok,
        Prod.exists, Except.ok.injEq] at h
      obtain ⟨_, -, _, -, _, -, _, -, _, _, -, _, -, rfl⟩ := h
      exact .refl _
  | closeUserPendingTokenAmount f user =>
      simp only [Books.user, closeUserPendingTokenAmount, bind_eq_ok, Except.ok.injEq] at h
      obtain ⟨_, -, _, -, _, -, rfl⟩ := h
      exact .refl _
  | transferFromUserPendingBasketAta f user tokenMint =>
      simp only [Books.user, transferFromUserPendingBasketAta, bind_eq_ok, Except.ok.injEq] at h
      obtain ⟨_, -, _, -, _, -, _, -, rfl⟩ := h
      exact .refl _

/-! ### The instructions of anybody and of the admin -/

theorem distributeFees_folios {index : ℕ} (h : b.distributeFees f user index = .ok b') :
    FolioSteps b.folios [] b'.folios := by
  simp only [distributeFees, bind_eq_ok, Except.ok.injEq, load_eq_ok, addU64_eq_ok,
    checkCondition_eq_ok, guardOr_eq_ok] at h
  obtain ⟨before, hbefore, recipients, hrecipients, _, ⟨-, rfl⟩, _, rfl, _, hfresh, config, -, poked,
    hpoke, split, hsplit, _, -, after, htaken, rfl⟩ := h
  obtain ⟨hfound, hstatus⟩ := initialized_of_validateFolio hbefore (by decide)
  have hchange := poked_change hstatus hpoke
  exact .single (.distributed f user before poked after recipients split hfound hrecipients hfresh
    hchange (fun e => hstatus (hchange.initializing e).1) hsplit htaken)

/-- What a crank pays it takes off the counter, as far as it fits. -/
theorem crankFeeDistribution_spec {index : ℕ} {indices : List ℕ} {addresses : List T.Address}
    (h : b.crankFeeDistribution f index indices addresses = .ok b') :
    ∃ before d state paid taken, b.folio f = some before ∧ before.status ≠ .Initializing ∧
      b.feeDistribution (f, index) = some d ∧
      d.pay d.feeRecipientsState indices = .ok (state, paid) ∧
      b.payments (.crank (.crankFeeDistribution f index indices addresses))
        = paid.map (FeePayment.mk (f, index)) ∧
      mintAll f b.ledger paid = some b'.ledger ∧
      taken = min (FeeDistribution.paidTotal paid * d9) u128Max ∧
      taken ≤ before.feeRecipientsPendingFeeSharesToBeMinted ∧
      b'.folios = { b.folios with
        folio := Function.update b.folio f (some { before with
          feeRecipientsPendingFeeSharesToBeMinted :=
            before.feeRecipientsPendingFeeSharesToBeMinted - taken })
        feeDistribution := Function.update b.feeDistribution (f, index)
          (if FeeDistribution.isFullyDistributed { d with feeRecipientsState := state } then none
          else some { d with feeRecipientsState := state }) } := by
  simp only [crankFeeDistribution, bind_eq_ok, Prod.exists, Except.ok.injEq, load_eq_ok,
    fromTokenAmount_eq_ok, toScaled_floor, checkedSub_eq_ok] at h
  obtain ⟨d, hd, before, hbefore, _, state, total, hloop, _, ⟨-, rfl⟩, _, rfl, _, ⟨hcovered, rfl⟩,
    rfl⟩ := h
  obtain ⟨paid, hpay, hmint, htotal⟩ := payRecipients_spec hloop
  obtain ⟨hfound, hstatus⟩ := initialized_of_validateFolio hbefore (by decide)
  rw [Nat.zero_add] at htotal
  subst htotal
  refine ⟨before, d, state, paid, _, hfound, hstatus, hd, hpay, ?_, hmint, rfl, hcovered, rfl⟩
  simp only [payments, hd, hpay]

theorem crankFeeDistribution_folios {index : ℕ} {indices : List ℕ} {recipients : List T.Address}
    (h : b.crankFeeDistribution f index indices recipients = .ok b') :
    FolioStep b.folios (b.payments (.crank (.crankFeeDistribution f index indices recipients)))
      b'.folios := by
  obtain ⟨before, d, state, paid, taken, hfound, hstatus, hd, hpay, hpayments, -, htaken, hcovered,
    hafter⟩ := crankFeeDistribution_spec h
  rw [hpayments, hafter]
  exact .cranked f index before d indices paid state taken hfound hstatus hd hpay htaken hcovered

theorem crank_folios {i : CrankInstruction T} (h : b.crank i = .ok b') :
    FolioSteps b.folios (b.payments (.crank i)) b'.folios := by
  cases i with
  | pokeFolio f =>
      simp only [Books.crank, pokeFolio, bind_eq_ok, Except.ok.injEq] at h
      obtain ⟨before, hbefore, after, hpoke, rfl⟩ := h
      obtain ⟨hfound, hstatus⟩ := initialized_of_validateFolio hbefore (by decide)
      exact changed_step hfound (poked_change hstatus hpoke) rfl
  | distributeFees f user index => exact distributeFees_folios h
  | crankFeeDistribution f index indices recipients => exact .single (crankFeeDistribution_folios h)

theorem administer_folios {i : AdminInstruction} (h : b.administer i = .ok b') :
    FolioSteps b.folios [] b'.folios := by
  cases i with
  | setDaoFeeConfig signer feeRecipient numerator floor =>
      simp only [administer, setDaoFeeConfig, bind_eq_ok, Except.ok.injEq] at h
      obtain ⟨_, -, _, -, _, -, rfl⟩ := h
      exact .refl _
  | setFolioFeeConfig signer f feeRecipientsGiven numerator floor =>
      simp only [administer, setFolioFeeConfig, bind_eq_ok, Except.ok.injEq] at h
      obtain ⟨_, -, _, -, _, -, b₁, hcpi, rfl⟩ := h
      have h₁ : FolioSteps b.folios [] b₁.folios := by
        rcases distributeFeesCpi_cases hcpi with rfl | ⟨index, hdistribute⟩
        · exact .refl _
        · exact distributeFees_folios hdistribute
      exact h₁
  | initProgramRegistrar signer programId =>
      simp only [administer, bind_eq_ok, Except.ok.injEq] at h
      obtain ⟨_, -, _, -, rfl⟩ := h
      exact .refl _
  | updateProgramRegistrar signer programIds remove =>
      simp only [administer, bind_eq_ok] at h
      obtain ⟨_, -, _, -, h⟩ := h
      split at h
      all_goals
        simp only [bind_eq_ok, Except.ok.injEq] at h
        obtain ⟨_, -, rfl⟩ := h
        exact .refl _

/-! ### The instructions of owners -/

theorem initFolio_folios {owner : Pubkey} {tvlFee mintFee auctionLength : ℕ} {mandate : List ℕ}
    (h : b.initFolio f owner tvlFee mintFee auctionLength mandate = .ok b') :
    FolioSteps b.folios [] b'.folios := by
  simp only [initFolio, bind_eq_ok, Except.ok.injEq, guardOr_eq_ok] at h
  obtain ⟨_, -, _, -, _, -, _, -, _, hfresh, _, -, _, -, folio, hset, rfl⟩ := h
  obtain ⟨-, rfl, -⟩ := Folio.setTvlFee_spec hset
  exact .single (.created f _ hfresh rfl rfl rfl)

/-- The initial mint makes an initializing folio initialized, without a poke. -/
theorem mintInitialShares_folios {owner : Pubkey} {before : Folio} {rawInitialShares : ℕ}
    {l : T.Ledger} {basket : Pubkey → Option FolioBasket} (hfound : b.folio f = some before)
    (h : mintInitialShares { b with ledger := l, folioBasket := basket } f owner before
      rawInitialShares = .ok b') : FolioSteps b.folios [] b'.folios := by
  have hchange : FolioChange before
      { before with status := .Initialized, initializedAt := b.now } := ⟨rfl, le_rfl, FolioStatus.noConfusion⟩
  unfold mintInitialShares at h
  split at h
  · simp only [bind_eq_ok, Except.ok.injEq] at h
    obtain ⟨_, -, rfl⟩ := h
    exact changed_step hfound hchange rfl
  · cases h
    exact changed_step hfound hchange rfl

theorem addToBasket_folios {owner : Pubkey} {accounts : List (TokenAccounts T)}
    {rawAmounts : List ℕ} {rawInitialShares : Option ℕ}
    (h : b.addToBasket f owner accounts rawAmounts rawInitialShares = .ok b') :
    FolioSteps b.folios [] b'.folios := by
  simp only [addToBasket, bind_eq_ok, Prod.exists] at h
  obtain ⟨before, hbefore, _, -, _, _, -, _, -, h⟩ := h
  obtain ⟨hfound, -, -⟩ := validateFolioFor_eq_ok hbefore
  cases rawInitialShares with
  | none =>
      cases h
      exact .refl _
  | some rawInitialShares =>
      exact mintInitialShares_folios hfound h

theorem distributeOnce_folios {should : Bool} {owner : Pubkey} {index : Option ℕ}
    (h : distributeOnce should b f owner index = .ok b') : FolioSteps b.folios [] b'.folios := by
  unfold distributeOnce at h
  split at h
  · simp only [distributeFeesForUpdate, bind_eq_ok] at h
    obtain ⟨folio, -, h⟩ := h
    split at h
    · simp only [bind_eq_ok] at h
      obtain ⟨_, -, h⟩ := h
      exact distributeFees_folios h
    · cases h
      exact .refl _
  · cases h
    exact .refl _

theorem modifyFolio_folios {change : Folio → Result Folio}
    (hchange : ∀ before after, change before = .ok after → FolioChange before after)
    (h : b.modifyFolio f change = .ok b') : FolioSteps b.folios [] b'.folios := by
  simp only [modifyFolio, bind_eq_ok, load_eq_ok, Except.ok.injEq] at h
  obtain ⟨before, hfound, after, hafter, rfl⟩ := h
  exact changed_step hfound (hchange before after hafter) rfl

theorem updateFee_folios {owner : Pubkey} {should should' : Bool} {index fee : Option ℕ}
    {check : ℕ → Result Unit} {change : ℕ → Folio → Result Folio}
    (hchange : ∀ fee before after, change fee before = .ok after → FolioChange before after)
    (h : b.updateFee should f owner index fee check change = .ok (b', should')) :
    FolioSteps b.folios [] b'.folios := by
  cases fee with
  | none =>
      cases h
      exact .refl _
  | some fee =>
      simp only [updateFee, bind_eq_ok, Except.ok.injEq, Prod.mk.injEq] at h
      obtain ⟨_, -, b₁, hdistribute, b₂, hmodify, rfl, -⟩ := h
      exact (distributeOnce_folios hdistribute).trans_nil (modifyFolio_folios (hchange fee) hmodify)

/-- The settings are an auction length and a mandate. -/
theorem updateSettings_spec {update : FolioUpdate} (h : b.updateSettings f update = .ok b') :
    ∃ before auctionLength mandate, b.folio f = some before ∧
      b' = b.setFolio f { before with auctionLength, mandate } := by
  simp only [updateSettings, modifyFolio, bind_eq_ok, load_eq_ok, Except.ok.injEq] at h
  obtain ⟨before, hfound, after, hafter, rfl⟩ := h
  have hspec : ∃ auctionLength mandate, after = { before with auctionLength, mandate } := by
    obtain ⟨_, _, _, auctionLength, _, _, mandate⟩ := update
    cases auctionLength with
    | none =>
        cases mandate with
        | none =>
            cases hafter
            exact ⟨_, _, rfl⟩
        | some mandate =>
            simp only [ok_bind, bind_eq_ok, Except.ok.injEq] at hafter
            obtain ⟨_, -, rfl⟩ := hafter
            exact ⟨_, _, rfl⟩
    | some auctionLength =>
        cases mandate with
        | none =>
            simp only [bind_eq_ok, Except.ok.injEq] at hafter
            obtain ⟨_, -, _, rfl, rfl⟩ := hafter
            exact ⟨_, _, rfl⟩
        | some mandate =>
            simp only [bind_eq_ok, Except.ok.injEq] at hafter
            obtain ⟨_, -, _, rfl, _, -, rfl⟩ := hafter
            exact ⟨_, _, rfl⟩
  obtain ⟨auctionLength, mandate, rfl⟩ := hspec
  exact ⟨before, auctionLength, mandate, hfound, rfl⟩

theorem updateSettings_folios {update : FolioUpdate} (h : b.updateSettings f update = .ok b') :
    FolioSteps b.folios [] b'.folios := by
  obtain ⟨before, auctionLength, mandate, hfound, rfl⟩ := updateSettings_spec h
  have hchange : FolioChange before { before with auctionLength, mandate } :=
    ⟨rfl, le_rfl, fun e => ⟨e, rfl⟩⟩
  exact changed_step hfound hchange rfl

theorem updateRecipients_folios {owner : Pubkey} {should : Bool} {update : FolioUpdate}
    (hfolio : b.folio f ≠ none) (h : b.updateRecipients should f owner update = .ok b') :
    FolioSteps b.folios [] b'.folios := by
  unfold updateRecipients at h
  split at h
  · cases h
    exact .refl _
  · simp only [bind_eq_ok, Except.ok.injEq, load_eq_ok] at h
    obtain ⟨b₁, hdistribute, recipients, hfound, after, hupdate, rfl⟩ := h
    have hsteps := distributeOnce_folios hdistribute
    obtain ⟨hindex, hvalid⟩ := FeeRecipients.updateFeeRecipients_spec hupdate
    have hfound' : (b₁.folios.feeRecipients f).getD FeeRecipients.init = recipients := by
      simp only [folios, hfound, Option.getD_some]
    refine hsteps.trans_nil (.single (.recipients f after (FolioSteps.isFolio hsteps hfolio) ?_ (.inr hvalid)))
    rw [hindex, hfound']

theorem updateFolio_folios {owner : Pubkey} {update : FolioUpdate}
    (h : b.updateFolio f owner update = .ok b') : FolioSteps b.folios [] b'.folios := by
  simp only [updateFolio, bind_eq_ok, Prod.exists] at h
  obtain ⟨folio, hvalid, b₁, _, hfirst, b₂, _, hsecond, b₃, hrecipients, hsettings⟩ := h
  have hfolio : b.folio f ≠ none := by
    rw [(validateFolioFor_eq_ok hvalid).1]
    exact Option.some_ne_none folio
  have hinit : FolioSteps b.folios [] (b.initFeeRecipients f).folios :=
    .single (.recipients f _ hfolio rfl (.inl rfl))
  have h₁ := hinit.trans_nil (updateFee_folios (fun _ _ _ hset => by
    obtain ⟨-, rfl, -⟩ := Folio.setTvlFee_spec hset
    exact ⟨rfl, le_rfl, fun e => ⟨e, rfl⟩⟩) hfirst)
  have h₂ := h₁.trans_nil (updateFee_folios (fun _ _ _ hset => by
    cases hset
    exact ⟨rfl, le_rfl, fun e => ⟨e, rfl⟩⟩) hsecond)
  have h₃ := h₂.trans_nil (updateRecipients_folios (FolioSteps.isFolio h₂ hfolio) hrecipients)
  exact h₃.trans_nil (updateSettings_folios hsettings)

theorem owner_folios {i : OwnerInstruction T} (h : b.owner i = .ok b') :
    FolioSteps b.folios [] b'.folios := by
  cases i with
  | initFolio f owner tvlFee mintFee auctionLength mandate => exact initFolio_folios h
  | initOrUpdateActor f owner newAuthority role =>
      simp only [Books.owner, initOrUpdateActor, bind_eq_ok, Except.ok.injEq] at h
      obtain ⟨_, -, rfl⟩ := h
      exact .refl _
  | removeActor f owner authority role closeActor =>
      simp only [Books.owner, removeActor, bind_eq_ok, Except.ok.injEq] at h
      obtain ⟨_, -, _, -, rfl⟩ := h
      exact .refl _
  | addToBasket f owner accounts rawAmounts rawInitialShares => exact addToBasket_folios h
  | removeFromBasket f owner tokenMint =>
      simp only [Books.owner, removeFromBasket, bind_eq_ok, Except.ok.injEq] at h
      obtain ⟨_, -, _, -, _, -, _, -, rfl⟩ := h
      exact .refl _
  | killFolio f owner =>
      simp only [Books.owner, killFolio, bind_eq_ok, Except.ok.injEq] at h
      obtain ⟨before, hbefore, rfl⟩ := h
      have hchange : FolioChange before { before with status := .Killed } := ⟨rfl, le_rfl, FolioStatus.noConfusion⟩
      exact changed_step (validateFolioFor_eq_ok hbefore).1 hchange rfl
  | updateFolio f owner update => exact updateFolio_folios h
  | startFolioMigration f owner newProgram maxAllowedPendingFees handOver =>
      simp only [Books.owner, startFolioMigration, bind_eq_ok, Except.ok.injEq] at h
      obtain ⟨before, hbefore, _, -, _, -, _, -, _, -, _, -, _, -, _, -, _, -, _, -, rfl⟩ := h
      have hchange : FolioChange before { before with status := .Migrating } :=
        ⟨rfl, le_rfl, FolioStatus.noConfusion⟩
      exact changed_step (validateFolioFor_eq_ok hbefore).1 hchange rfl
  | migrateFolioTokens f newProgram newFolio accounts =>
      simp only [Books.owner, migrateFolioTokens, bind_eq_ok, Prod.exists, Except.ok.injEq] at h
      obtain ⟨_, -, _, -, _, -, _, _, -, rfl⟩ := h
      exact .refl _

end Books

namespace World

open Books

variable {T : TokenProgram} {w w' : World T} {f user : Pubkey}

/-! ### The instructions on auctions -/

theorem openFor_folios {folio : Folio} {sellMint buyMint : Pubkey} {buffer : ℕ}
    {config : Option OpenAuctionConfig} {isPermissionless : Bool}
    (hfound : w.books.folio f = some folio) (hstatus : folio.status ≠ .Initializing)
    (h : w.openFor f folio sellMint buyMint buffer config isPermissionless = .ok w') :
    FolioSteps w.books.folios [] w'.books.folios := by
  simp only [openFor, bind_eq_ok, Prod.exists, Except.ok.injEq] at h
  obtain ⟨_, -, _, -, after, hpoke, _, -, _, -, _, _, _, -, rfl⟩ := h
  exact changed_step hfound (poked_change hstatus hpoke) rfl

theorem auction_folios {i : AuctionInstruction T} (h : w.auction i = .ok w') :
    FolioSteps w.books.folios [] w'.books.folios := by
  cases i with
  | startRebalance f manager window ttl mints pricesAndLimits added =>
      simp only [auction, startRebalance, bind_eq_ok, Except.ok.injEq] at h
      obtain ⟨before, hbefore, _, -, after, hpoke, _, -, rfl⟩ := h
      obtain ⟨hfound, -, hstatus⟩ := validateFolioFor_eq_ok hbefore
      have hne : before.status ≠ .Initializing := fun e => absurd (e ▸ hstatus) (by decide)
      exact changed_step hfound (poked_change hne hpoke) rfl
  | addRebalanceDetails f manager mints pricesAndLimits added =>
      simp only [auction, addRebalanceDetails, bind_eq_ok, Except.ok.injEq] at h
      obtain ⟨_, -, _, -, _, -, _, -, rfl⟩ := h
      exact .refl _
  | openAuction f launcher sellMint buyMint config =>
      simp only [auction, openAuction, bind_eq_ok] at h
      obtain ⟨before, hbefore, h⟩ := h
      obtain ⟨hfound, -, hstatus⟩ := validateFolioFor_eq_ok hbefore
      exact openFor_folios hfound (fun e => absurd (e ▸ hstatus) (by decide)) h
  | openAuctionPermissionless f sellMint buyMint =>
      simp only [auction, openAuctionPermissionless, bind_eq_ok] at h
      obtain ⟨before, hbefore, h⟩ := h
      obtain ⟨hfound, hstatus⟩ := initialized_of_validateFolio hbefore (by decide)
      exact openFor_folios hfound hstatus h
  | bid f bidder key rawSellAmount rawMaxBuyAmount callback =>
      simp only [auction, bid, validateBid, bind_eq_ok, Prod.exists, Except.ok.injEq,
        Prod.mk.injEq] at h
      obtain ⟨_, -, _, -, _, _, _, ⟨before, hbefore, _, -, _, -, _, -, _, -, _, -, _, -, rfl, rfl,
        rfl⟩, after, hpoke, _, _, -, _, _, -, _, -, _, -, _, -, _, -, _, _, -, rfl⟩ := h
      obtain ⟨hfound, hstatus⟩ := initialized_of_validateFolio hbefore (by decide)
      exact changed_step hfound (poked_change hstatus hpoke) rfl
  | closeAuction f actor key =>
      simp only [auction, closeAuction, bind_eq_ok] at h
      obtain ⟨_, -, _, -, _, -, _, -, h⟩ := h
      split at h
      · simp only [bind_eq_ok, Except.ok.injEq] at h
        obtain ⟨_, -, rfl⟩ := h
        exact .refl _
      · cases h
        exact .refl _

/-- **What an input does to the folios**, with the payments it makes. -/
theorem step_folios {i : Instruction T} (h : w.step i = .ok w') :
    FolioSteps w.books.folios (w.books.payments i) w'.books.folios := by
  cases i with
  | auction i => exact auction_folios h
  | user i =>
      simp only [step, onBooks_eq_ok] at h
      exact user_folios h.1
  | owner i =>
      simp only [step, onBooks_eq_ok] at h
      exact owner_folios h.1
  | crank i =>
      simp only [step, onBooks_eq_ok] at h
      exact crank_folios h.1
  | admin i =>
      simp only [step, onBooks_eq_ok] at h
      exact administer_folios h.1
  | elapse seconds =>
      simp only [step, onBooks_eq_ok, Except.ok.injEq] at h
      rw [← h.1]
      exact .single (.elapsed seconds)
  | outside call =>
      simp only [step, onBooks_eq_ok, bind_eq_ok, Except.ok.injEq] at h
      obtain ⟨⟨_, -, hb⟩, -⟩ := h
      rw [← hb]
      exact .refl _

end World

end IndexDtf

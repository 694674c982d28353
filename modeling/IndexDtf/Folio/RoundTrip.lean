import IndexDtf.Folio.ShareValue

/-!
# IndexDtf.Folio.RoundTrip

Minting and burning back, and burning in parts.

* `Rests` — what pokes, distributions and cranks leave: the baskets rest and the total
  supply does not fall, but for a distribution that drops a part of a share;
* `round_trip_gains_nothing` — so a burn after a mint hands out no more than the mint
  took;
* `parts_gain_nothing` — burning in parts hands out no more than burning at once.
-/

namespace IndexDtf

open Lib Decimal

namespace Books

variable {T : TokenProgram} {b b' b'' : Books T} {f g : Pubkey}

/-! ### The supply of a mint and a burn -/

theorem supplyNow_of_mint {user rawShares : ℕ} {minRawShares : Option ℕ}
    (h : b.mintFolioToken f user rawShares minRawShares = .ok b') :
    ∃ supply, b.supplyNow f = .ok supply := by
  simp only [mintFolioToken, UserPendingBasket.toAssets, bind_eq_ok, Prod.exists] at h
  obtain ⟨before, hbefore, _, -, _, -, fee, hfee, _, _, _, ⟨poked, hpoke, supply, hsupply, -⟩, -⟩ := h
  refine ⟨supply, ?_⟩
  simp only [supplyNow, Books.poked, bind_eq_ok, load_eq_ok]
  exact ⟨before, (validateFolio_eq_ok.mp hbefore).1, poked, ⟨fee, hfee, hpoke⟩, hsupply⟩

theorem supplyNow_of_burn {user rawShares : ℕ} {minimumOut : List MinimumOutForTokenAmount}
    (h : b.burnFolioToken f user rawShares minimumOut = .ok b') :
    ∃ supply, b.supplyNow f = .ok supply := by
  simp only [burnFolioToken, UserPendingBasket.toAssets, bind_eq_ok, Prod.exists] at h
  obtain ⟨before, hbefore, _, -, _, -, fee, hfee, _, _, _, ⟨poked, hpoke, supply, hsupply, -⟩, -⟩ := h
  refine ⟨supply, ?_⟩
  simp only [supplyNow, Books.poked, bind_eq_ok, load_eq_ok]
  exact ⟨before, (validateFolio_eq_ok.mp hbefore).1, poked, ⟨fee, hfee, hpoke⟩, hsupply⟩

/-! ### Between a mint and a burn -/

/-- No token list changes, and the total supply of a folio does not fall. -/
structure Rests (f : Pubkey) (b b' : Books T) : Prop where
  folioBasket : b'.folioBasket = b.folioBasket
  userPendingBasket : b'.userPendingBasket = b.userPendingBasket
  total : b.totalSupply f ≤ b'.totalSupply f

theorem Rests.refl : Rests f b b := ⟨rfl, rfl, le_rfl⟩

theorem Rests.trans (h : Rests f b b') (h' : Rests f b' b'') : Rests f b b'' where
  folioBasket := h'.folioBasket.trans h.folioBasket
  userPendingBasket := h'.userPendingBasket.trans h.userPendingBasket
  total := h.total.trans h'.total

theorem Rests.basketAmount (h : Rests f b b') (m : Pubkey) :
    b'.basketAmount g m = b.basketAmount g m := by
  rw [Books.basketAmount, Books.basketAmount, h.folioBasket]

theorem Rests.pendingAmounts (h : Rests f b b') {user : Pubkey} (m : Pubkey) :
    b'.pendingAmounts g user m = b.pendingAmounts g user m := by
  rw [Books.pendingAmounts, Books.pendingAmounts, h.userPendingBasket]

theorem Rests.wf (h : Rests f b b') (hwf : b.BasketsWF) : b'.BasketsWF :=
  ⟨h.folioBasket ▸ hwf.folioBasket, h.userPendingBasket ▸ hwf.userPendingBasket⟩

/-- The supply of a folio is not touched by what happens to another. -/
theorem totalSupply_congr (hfolio : b'.folio f = b.folio f)
    (hsupply : T.supply b'.ledger f = T.supply b.ledger f) : b'.totalSupply f = b.totalSupply f := by
  rw [totalSupply, totalSupply, hfolio, hsupply]

theorem pokeFolio_rests (h : b.pokeFolio g = .ok b') : Rests f b b' := by
  simp only [pokeFolio, bind_eq_ok, Except.ok.injEq] at h
  obtain ⟨before, hbefore, poked, hpoked, rfl⟩ := h
  refine ⟨rfl, rfl, ?_⟩
  by_cases hg : f = g
  · subst hg
    have hle := poked_pending_le hpoked
    rw [totalSupply_of (validateFolio_eq_ok.mp hbefore).1, totalSupply_of (Function.update_self ..),
      Folio.totalSupply_eq, Folio.totalSupply_eq]
    exact Nat.add_le_add_left hle _
  · have hsame : (b.setFolio g poked).totalSupply f = b.totalSupply f :=
      totalSupply_congr (Function.update_of_ne hg ..) rfl
    exact hsame.ge

theorem crankFeeDistribution_rests (hT : T.CountsSupply) {index : ℕ} {indices : List ℕ}
    {recipients : List T.Address}
    (h : b.crankFeeDistribution g index indices recipients = .ok b') : Rests f b b' := by
  obtain ⟨before, d, state, paid, taken, -, -, -, -, -, hmint, -, -, hafter⟩ :=
    crankFeeDistribution_spec h
  have hsame : b'.folioBasket = b.folioBasket ∧ b'.userPendingBasket = b.userPendingBasket := by
    simp only [crankFeeDistribution, bind_eq_ok, Prod.exists, Except.ok.injEq] at h
    obtain ⟨_, -, _, -, _, _, _, -, _, -, _, -, _, -, rfl⟩ := h
    exact ⟨rfl, rfl⟩
  refine ⟨hsame.1, hsame.2, ?_⟩
  by_cases hg : f = g
  · subst hg
    exact (crankFeeDistribution_total hT h).ge
  · refine (totalSupply_congr ?_ ?_).ge
    · exact (congrFun (congrArg FolioBooks.folio hafter) f).trans (Function.update_of_ne hg ..)
    · rw [(mintAll_supply hT hmint).1, Function.update_of_ne hg]

/-- The condition that a distribution now would drop nothing. -/
def DropsNothing (b : Books T) (f : Pubkey) : Prop :=
  ∀ before poked recipients, b.folio f = some before → b.poked f before = .ok poked →
    b.feeRecipients f = some recipients → KeepsTotal poked recipients

theorem distributeFees_rests (hT : T.CountsSupply) {user : Pubkey} {index : ℕ}
    (hdrops : f = g → b.DropsNothing f) (h : b.distributeFees g user index = .ok b') :
    Rests f b b' := by
  have hsame : b'.folioBasket = b.folioBasket ∧ b'.userPendingBasket = b.userPendingBasket ∧
      ∃ n folio address, T.mintTo b.ledger (.folio g) g address n = some b'.ledger ∧
        b'.folio = Function.update b.folio g (some folio) := by
    simp only [distributeFees, bind_eq_ok, Except.ok.injEq, invoke_eq_ok] at h
    obtain ⟨_, -, _, -, _, -, _, -, _, -, _, -, _, -, _, -, _, hmint, _, -, rfl⟩ := h
    exact ⟨rfl, rfl, _, _, _, hmint, rfl⟩
  obtain ⟨hbasket, hpending, n, folio, address, hmint, hfolio⟩ := hsame
  refine ⟨hbasket, hpending, ?_⟩
  by_cases hg : f = g
  · subst hg
    obtain ⟨before, hbefore, poked, hpoked, recipients, hrecipients, hiff⟩ :=
      distributeFees_total_iff hT h
    have hle := poked_pending_le hpoked
    rw [hiff.mpr (hdrops rfl before poked recipients hbefore hpoked hrecipients),
      totalSupply_of hbefore, Folio.totalSupply_eq, Folio.totalSupply_eq]
    exact Nat.add_le_add_left hle _
  · refine (totalSupply_congr ?_ ?_).ge
    · rw [hfolio, Function.update_of_ne hg]
    · rw [(hT.mintTo hmint).1, Function.update_of_ne hg]

end Books

namespace World

open Books

variable {T : TokenProgram} {w w₁ w₂ w' : World T} {f user : Pubkey}
  {inputs : List (Instruction T)}

/-- Time passes, or one of the permissionless instructions on fees. -/
def IsCrank : Instruction T → Prop
  | .crank _ | .elapse _ => True
  | _ => False

/-- The condition on an input that it drops no part of a share of the folio. -/
def DropsNothing (f : Pubkey) (w : World T) : Instruction T → Prop
  | .crank (.distributeFees g _ _) => f = g → w.books.DropsNothing f
  | _ => True

theorem rests_step (hT : T.CountsSupply) {i : Instruction T} (hcrank : IsCrank i)
    (hdrops : DropsNothing f w i) (h : w.step i = .ok w') : Rests f w.books w'.books := by
  cases i with
  | elapse seconds =>
      simp only [step, onBooks_eq_ok, Except.ok.injEq] at h
      rw [← h.1]
      exact ⟨rfl, rfl, le_rfl⟩
  | crank i =>
      simp only [step, onBooks_eq_ok] at h
      cases i with
      | pokeFolio g => exact pokeFolio_rests h.1
      | distributeFees g user index => exact distributeFees_rests hT hdrops h.1
      | crankFeeDistribution g index indices recipients => exact crankFeeDistribution_rests hT h.1
  | user | owner | admin | auction | outside => exact hcrank.elim

theorem rests_run (hT : T.CountsSupply) (hcranks : ∀ i ∈ inputs, IsCrank i)
    (hdrops : RunMeets step (DropsNothing f) w inputs) :
    Rests f w.books (run step w inputs).books := by
  induction inputs generalizing w with
  | nil => exact .refl
  | cons i rest ih =>
      obtain ⟨hi, hrest⟩ := hdrops
      have hrests : Rests f w.books (attempt step w i).books :=
        attempt_cases (fun w' h => rests_step hT (hcranks i (List.mem_cons_self ..)) hi h) .refl
      exact hrests.trans (ih (fun j hj => hcranks j (List.mem_cons_of_mem i hj)) hrest)

/-! ### Minting and burning back -/

/-- What a burn of no more shares hands out at one token is covered by what the mint took. -/
theorem redeemedFor_le_takenFor {supply supply' balance rawShares rawBurned : ℕ}
    (hsupply : 0 < supply) (hle : rawBurned ≤ rawShares)
    (hsupply' : supply + rawBurned * d9 ≤ supply') :
    redeemedFor supply' (balance + takenFor supply balance rawShares) rawBurned
      ≤ takenFor supply balance rawShares := by
  have hd9 : 0 < d9 := by decide
  by_cases hfits : price d9 supply balance (rawShares * d9) ≤ u64Max
  · have htaken : takenFor supply balance rawShares = price d9 supply balance (rawShares * d9) :=
      Nat.min_eq_left hfits
    rw [htaken]
    exact (min_le_left ..).trans (payout_le_price hd9 (lt_price hd9 hsupply)
      (Nat.mul_le_mul_right d9 hle) hsupply')
  · have htaken : takenFor supply balance rawShares = u64Max :=
      Nat.min_eq_right (Nat.le_of_not_le hfits)
    rw [htaken]
    exact min_le_right ..

/-- Folio 5 charges 5% a year and has 600 of token 7 in its basket; its owner 3 has another
100 in her pending basket. -/
def yearly : World TokenProgram.simple :=
  run step (genesis SimpleLedger.empty 1000000)
    [.admin (.setDaoFeeConfig admin (some 9) (some 0) (some 0)),
      .owner (.initFolio 5 3 50000000000000000 0 60 []),
      .outside (.openAccount (.external 3) 7),
      .outside (.issue (.external 3) 7 1000),
      .outside (.openAccount (.folio 5) 7),
      .outside (.openAccount (.external 3) 5),
      .owner (.addToBasket 5 3 [⟨7, (.external 3, 7), (.folio 5, 7)⟩] [600] (some 1000000000)),
      .user (.addToPendingBasket 5 3 [⟨7, (.external 3, 7), (.folio 5, 7)⟩] [100])]

theorem basketsWF_yearly : yearly.books.BasketsWF := Reachable.basketsWF (reachable_genesis ..)

/-- Two days pass, and the folio is poked. -/
def twoDays : List (Instruction TokenProgram.simple) :=
  [.elapse 172800, .crank (.pokeFolio 5)]

/-- **Minting and burning back gains nothing**: if no distribution in between drops a part
of a share, a burn of no more shares than were minted hands out no more of any token than
the mint took. -/
theorem round_trip_gains_nothing {rawShares rawBurned : ℕ} {minRawShares : Option ℕ}
    {minimumOut : List MinimumOutForTokenAmount} (hT : T.CountsSupply) (hwf : w.books.BasketsWF)
    (hmint : w.step (.user (.mintFolioToken f user rawShares minRawShares)) = .ok w₁)
    (hcranks : ∀ i ∈ inputs, IsCrank i) (hdrops : RunMeets step (DropsNothing f) w₁ inputs)
    (hburn : (run step w₁ inputs).step (.user (.burnFolioToken f user rawBurned minimumOut))
      = .ok w₂)
    (hle : T.supply w.books.ledger f + rawBurned ≤ T.supply w₁.books.ledger f) (m : Pubkey) :
    (w₂.books.pendingAmounts f user m).amountForRedeeming
        + (w₁.books.pendingAmounts f user m).amountForMinting
      ≤ ((run step w₁ inputs).books.pendingAmounts f user m).amountForRedeeming
        + (w.books.pendingAmounts f user m).amountForMinting := by
  simp only [step, onBooks_eq_ok, Books.user] at hmint hburn
  obtain ⟨hmint, -⟩ := hmint
  obtain ⟨hburn, -⟩ := hburn
  have hwf₁ := (mintFolioToken_settled hmint).wf hwf
  have hrests := rests_run hT hcranks hdrops
  obtain ⟨supply, hsupply⟩ := supplyNow_of_mint hmint
  obtain ⟨supply', hsupply'⟩ := supplyNow_of_burn hburn
  obtain ⟨hbacked, -, hcovered, huser, hamount⟩ := mintFolioToken_at hwf hmint hsupply m
  have hgiven := (burnFolioToken_at (hrests.wf hwf₁) hburn hsupply' m).user
  -- the supply is at least what it was with the new shares
  have hgrown : supply.val + rawBurned * d9 ≤ supply'.val ∧ rawBurned ≤ rawShares := by
    obtain ⟨minted, hminted, hless, htotal, -⟩ := mintFolioToken_total hT hmint hsupply
    have hmul : rawBurned * d9 ≤ minted * d9 := Nat.mul_le_mul_right d9 (by omega)
    have htotal' := totalSupply_le_supplyNow hsupply'
    have hkept := hrests.total
    omega
  have hcover : redeemedFor supply'.val (w₁.books.basketAmount f m) rawBurned
      ≤ takenFor supply.val (w.books.basketAmount f m) rawShares := by
    rw [hamount]
    cases hbacked with
    | inl hpos => exact redeemedFor_le_takenFor hpos hgrown.2 hgrown.1
    | inr hnone =>
        rw [hnone, takenFor_zero, redeemedFor_zero]
  rw [hgiven, hrests.basketAmount, hrests.pendingAmounts, huser]
  simp only
  omega

/-- A mint, two days of fees, and the burn of all the new shares: one of the 60 units is
lost. -/
theorem round_trip_gains_nothing_yearly :
    ∃ w₁, yearly.step (.user (.mintFolioToken 5 3 100000000 none)) = .ok w₁ ∧
      ∃ w₂, (run step w₁ twoDays).step (.user (.burnFolioToken 5 3 100000000 [])) = .ok w₂ ∧
        (w₂.books.pendingAmounts 5 3 7).amountForRedeeming
            + (w₁.books.pendingAmounts 5 3 7).amountForMinting
          ≤ ((run step w₁ twoDays).books.pendingAmounts 5 3 7).amountForRedeeming
            + (yearly.books.pendingAmounts 5 3 7).amountForMinting := by
  have hok : ∃ w₁, yearly.step (.user (.mintFolioToken 5 3 100000000 none)) = .ok w₁ ∧
      (∃ w₂, (run step w₁ twoDays).step (.user (.burnFolioToken 5 3 100000000 [])) = .ok w₂ ∧ True) ∧
      yearly.books.ledger.supply 5 + 100000000 ≤ w₁.books.ledger.supply 5 := by decide +kernel
  obtain ⟨w₁, hmint, ⟨w₂, hburn, -⟩, hle⟩ := hok
  have hcranks : ∀ i ∈ twoDays, IsCrank i := by
    intro i hi
    simp only [twoDays, List.mem_cons, List.not_mem_nil, or_false] at hi
    rcases hi with rfl | rfl
    · trivial
    · trivial
  have hdrops : RunMeets step (DropsNothing 5) w₁ twoDays := ⟨trivial, trivial, trivial⟩
  exact ⟨w₁, hmint, w₂, hburn, round_trip_gains_nothing TokenProgram.simple_countsSupply
    basketsWF_yearly hmint hcranks hdrops hburn hle 7⟩

/-- Folio 5 with 2100 raw shares and 2100000 of token 7, when its fee on mints, of which 10.999999945
shares are due to the DAO, was set to zero. -/
def fewShares : World TokenProgram.simple :=
  run step (genesis SimpleLedger.empty 1000000)
    [.admin (.setDaoFeeConfig admin (some 9) (some 199999999000000000) (some 0)),
      .owner (.initFolio 5 3 0 50000000000000000 60 []),
      .outside (.openAccount (.external 3) 7),
      .outside (.issue (.external 3) 7 3000000),
      .outside (.openAccount (.folio 5) 7),
      .outside (.openAccount (.external 3) 5),
      .outside (.openAccount (.external 9) 5),
      .owner (.addToBasket 5 3 [⟨7, (.external 3, 7), (.folio 5, 7)⟩] [1000000] (some 1000)),
      .user (.addToPendingBasket 5 3 [⟨7, (.external 3, 7), (.folio 5, 7)⟩] [1500000]),
      .user (.mintFolioToken 5 3 1100 none),
      .owner (.updateFolio 5 3 ⟨none, none, some 0, none, [], [], none⟩)]

/-- 100 shares are minted for 100000 of the token; the distribution drops the fraction of
the share that is due to the DAO, and the 100 shares are burned for 100045. -/
theorem gained_by_distribution :
    fewShares.Reachable ∧
      ∃ w₁, fewShares.step (.user (.mintFolioToken 5 3 100 none)) = .ok w₁ ∧
        w₁.books.ledger.supply 5 = fewShares.books.ledger.supply 5 + 100 ∧
        (fewShares.books.pendingAmounts 5 3 7).amountForMinting
          = (w₁.books.pendingAmounts 5 3 7).amountForMinting + 100000 ∧
        ∃ w₂, (run step w₁ [.crank (.distributeFees 5 3 1)]).step
            (.user (.burnFolioToken 5 3 100 [])) = .ok w₂ ∧
          (w₂.books.pendingAmounts 5 3 7).amountForRedeeming
            = (w₁.books.pendingAmounts 5 3 7).amountForRedeeming + 100045 :=
  ⟨reachable_genesis .., by decide +kernel⟩

/-! ### Burning in parts -/

/-- A part of a redemption: a burn, and the pokes until the next one. -/
structure RedemptionPart (T : TokenProgram) where
  rawShares : ℕ
  minimumOut : List MinimumOutForTokenAmount
  pokes : List (Instruction T)

/-- Time passes, or a folio is poked. -/
def IsPoke : Instruction T → Prop
  | .crank (.pokeFolio _) | .elapse _ => True
  | _ => False

/-- The burns of a user one after the other. -/
def burnInParts (f user : Pubkey) : World T → List (RedemptionPart T) → Result (World T)
  | w, [] => .ok w
  | w, part :: parts => do
      let w ← w.step (.user (.burnFolioToken f user part.rawShares part.minimumOut))
      burnInParts f user (run step w part.pokes) parts

/-- The shares of all parts. -/
def sharesOf (parts : List (RedemptionPart T)) : ℕ := (parts.map (·.rawShares)).sum

theorem rests_pokes (hT : T.CountsSupply) (hpokes : ∀ i ∈ inputs, IsPoke i) :
    Rests f w.books (run step w inputs).books := by
  refine run_inv (I := fun w' : World T => Rests f w.books w'.books)
    (fun w₁ i w₂ hi hw₁ hstep => ?_) .refl
  refine hw₁.trans ?_
  have hpoke := hpokes i hi
  cases i with
  | elapse seconds => exact rests_step (i := .elapse seconds) hT trivial trivial hstep
  | crank i =>
      cases i with
      | pokeFolio g => exact rests_step (i := .crank (.pokeFolio g)) hT trivial trivial hstep
      | distributeFees | crankFeeDistribution => exact hpoke.elim
  | user | owner | admin | auction | outside => exact hpoke.elim

/-- What the parts hand out is fair, from any point of the redemption on. -/
theorem burnInParts_fair {parts : List (RedemptionPart T)} {supply shares paid : ℕ}
    (hT : T.CountsSupply) (hwf : w.books.BasketsWF)
    (hpokes : ∀ part ∈ parts, ∀ i ∈ part.pokes, IsPoke i)
    (h : burnInParts f user w parts = .ok w') (m : Pubkey)
    (hsupply : ∀ s, w.books.supplyNow f = .ok s → supply ≤ s.val + shares)
    (hall : shares + sharesOf parts * d9 ≤ supply)
    (hfair : Fair supply (paid + w.books.basketAmount f m) shares paid) :
    ∃ given, (w'.books.pendingAmounts f user m).amountForRedeeming
        = (w.books.pendingAmounts f user m).amountForRedeeming + given ∧
      (given = 0 ∨ (w'.books.pendingAmounts f user m).amountForRedeeming ≤ u64Max) ∧
      given ≤ w.books.basketAmount f m ∧
      Fair supply (paid + w.books.basketAmount f m) (shares + sharesOf parts * d9)
        (paid + given) := by
  induction parts generalizing w shares paid with
  | nil =>
      cases h
      refine ⟨0, rfl, .inl rfl, Nat.zero_le _, ?_⟩
      simpa only [sharesOf, List.map_nil, List.sum_nil, Nat.zero_mul, Nat.add_zero] using hfair
  | cons part parts ih =>
      simp only [burnInParts, bind_eq_ok] at h
      obtain ⟨w₁, hburn, hrest⟩ := h
      simp only [step, onBooks_eq_ok, Books.user] at hburn
      obtain ⟨hburn, -⟩ := hburn
      have hwf₁ := (burnFolioToken_settled hburn).wf hwf
      have hrests : Rests f w₁.books (run step w₁ part.pokes).books :=
        rests_pokes hT (hpokes part (List.mem_cons_self ..))
      obtain ⟨s, hs⟩ := supplyNow_of_burn hburn
      obtain ⟨-, hfits, huser, hamount⟩ := burnFolioToken_at hwf hburn hs m
      have htotal := burnFolioToken_total hT hburn hs
      have hleft := hsupply s hs
      have hsplit : sharesOf (part :: parts) * d9 = part.rawShares * d9 + sharesOf parts * d9 := by
        rw [sharesOf, List.map_cons, List.sum_cons, Nat.add_mul, ← sharesOf]
      rw [hsplit] at hall ⊢
      have hstep : Fair supply (paid + w.books.basketAmount f m) (shares + part.rawShares * d9)
          (paid + redeemedFor s.val (w.books.basketAmount f m) part.rawShares) :=
        hfair.step (by omega) hleft (min_le_left ..)
      have hbalance : paid + w.books.basketAmount f m
          = paid + redeemedFor s.val (w.books.basketAmount f m) part.rawShares
            + (run step w₁ part.pokes).books.basketAmount f m := by
        rw [hrests.basketAmount]
        omega
      have hsupply' : ∀ s', (run step w₁ part.pokes).books.supplyNow f = .ok s' →
          supply ≤ s'.val + (shares + part.rawShares * d9) := by
        intro s' hs'
        have hle := totalSupply_le_supplyNow hs'
        have hkept := hrests.total
        omega
      rw [hbalance] at hstep ⊢
      obtain ⟨given, hgiven, hfits', hless, hfair'⟩ := ih (hrests.wf hwf₁)
        (fun p hp => hpokes p (List.mem_cons_of_mem part hp)) hrest hsupply' (by omega) hstep
      rw [hrests.pendingAmounts, huser] at hgiven
      rw [hrests.basketAmount] at hless
      refine ⟨redeemedFor s.val (w.books.basketAmount f m) part.rawShares + given, ?_, ?_, by omega,
        ?_⟩
      · rw [hgiven, Nat.add_assoc]
      · simp only at hgiven
        omega
      · rw [← Nat.add_assoc, ← Nat.add_assoc]
        exact hfair'

/-- **Burning in parts gains nothing**: the parts together hand out no more of any token
than burning all their shares at once. -/
theorem parts_gain_nothing {parts : List (RedemptionPart T)} {b' : Books T}
    {minimumOut : List MinimumOutForTokenAmount} (hT : T.CountsSupply) (hwf : w.books.BasketsWF)
    (hpokes : ∀ part ∈ parts, ∀ i ∈ part.pokes, IsPoke i)
    (hparts : burnInParts f user w parts = .ok w')
    (honce : w.books.burnFolioToken f user (sharesOf parts) minimumOut = .ok b') (m : Pubkey) :
    (w'.books.pendingAmounts f user m).amountForRedeeming
      ≤ (b'.pendingAmounts f user m).amountForRedeeming := by
  obtain ⟨supply, hsupply⟩ := supplyNow_of_burn honce
  obtain ⟨hbacked, -, huser, -⟩ := burnFolioToken_at hwf honce hsupply m
  have htotal := burnFolioToken_total hT honce hsupply
  have hsame : ∀ s, w.books.supplyNow f = .ok s → supply.val ≤ s.val + 0 := by
    intro s hs
    rw [Except.ok.inj (hs.symm.trans hsupply)]
    exact le_rfl
  have hall : 0 + sharesOf parts * d9 ≤ supply.val := by omega
  have hzero : Fair supply.val (0 + w.books.basketAmount f m) 0 0 := .zero
  obtain ⟨given, hgiven, hfits, hless, hfair⟩ :=
    burnInParts_fair hT hwf hpokes hparts m hsame hall hzero
  simp only [Nat.zero_add] at hfair
  rw [hgiven, huser]
  refine Nat.add_le_add_left (Nat.le_min.mpr ⟨?_, by omega⟩) _
  cases hbacked with
  | inl hpos => exact hfair.le_payout hpos
  | inr hnone => omega

/-- Half of the shares in two parts, two days apart. -/
theorem parts_gain_nothing_yearly :
    let parts := [⟨300000000, [], twoDays⟩, ⟨200000000, [], []⟩]
    ∃ w', burnInParts 5 3 yearly parts = .ok w' ∧
      ∃ b', yearly.books.burnFolioToken 5 3 500000000 [] = .ok b' ∧
        (w'.books.pendingAmounts 5 3 7).amountForRedeeming
          ≤ (b'.pendingAmounts 5 3 7).amountForRedeeming := by
  intro parts
  have hparts : ∃ w', burnInParts 5 3 yearly parts = .ok w' ∧ True := by decide +kernel
  have honce : ∃ b', yearly.books.burnFolioToken 5 3 500000000 [] = .ok b' ∧ True := by
    decide +kernel
  obtain ⟨w', hparts, -⟩ := hparts
  obtain ⟨b', honce, -⟩ := honce
  have hpokes : ∀ part ∈ parts, ∀ i ∈ part.pokes, IsPoke i := by
    simp only [parts, twoDays, List.mem_cons, List.not_mem_nil, or_false]
    rintro part (rfl | rfl) i hi
    · rcases List.mem_cons.mp hi with rfl | hi
      · trivial
      · rw [List.mem_singleton.mp hi]
        trivial
    · exact absurd hi (List.not_mem_nil)
  exact ⟨w', hparts, b', honce, parts_gain_nothing TokenProgram.simple_countsSupply
    basketsWF_yearly hpokes hparts honce 7⟩

end World

end IndexDtf

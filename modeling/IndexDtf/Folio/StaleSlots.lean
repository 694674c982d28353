import Mathlib.Data.Finset.Lattice.Fold
import IndexDtf.Folio.BasketRuns

/-!
# IndexDtf.Folio.StaleSlots

**Slots that are empty but not free.** Taking a token out of a pending basket frees its slot when
nothing is left; minting does not, and neither does adding nothing. An empty basket can therefore be
full of mints, and a redemption that needs slots of its own fails.

* `NeverLacksSlot` — no redemption fails for want of a slot, whatever the folio holds;
* `neverLacksSlot_iff` — at most ten mints are in the way;
* `empty_basket_redeems_iff` — the same of every basket in every run.
-/

namespace IndexDtf

open Lib SlotArray Decimal

namespace UserPendingBasket

variable {pending : UserPendingBasket} {supply : Decimal} {basket : FolioBasket}

/-- No redemption from a basket of at most a hundred tokens fails for want of a slot. -/
def NeverLacksSlot (pending : UserPendingBasket) : Prop :=
  ∀ basket : FolioBasket, BasketWF basket →
    (used Pubkey.default basket).card ≤ maxFolioTokenAmounts →
    ∀ rawShares rawSupply folio now fee minimumOut,
      pending.toAssets rawShares rawSupply basket folio .RedeemProcess now fee minimumOut
        ≠ .error (.code .MintMismatch)

/-- Whoever redeems the whole supply gets all there is. -/
theorem exchange_whole :
    exchange .RedeemProcess 0 1 ⟨1 * d9⟩ ⟨1 * d9⟩ none = .ok (⟨0, 1⟩, 0) := rfl

variable {user : PendingAmounts} {amount amount' : ℕ} {shares : Decimal}

/-- A redemption of a token that is not pending takes a free slot. -/
theorem toAssetsRound_fresh {mint : Pubkey} (hp : BasketWF pending) (hmint : mint ≠ Pubkey.default)
    (hnew : pending.find mint = none)
    (hexchange : exchange .RedeemProcess 0 amount supply shares none = .ok (user, amount')) :
    (pending.find Pubkey.default = none ∧ toAssetsRound .RedeemProcess supply shares [] pending mint
        amount = .error (.code .MintMismatch)) ∨
    ∃ pending', toAssetsRound .RedeemProcess supply shares [] pending mint amount
        = .ok (pending', amount') ∧
      Becomes Pubkey.default pending pending'
        (Function.update (contents Pubkey.default pending) mint (some user)) := by
  have hminimum : minimumFor [] mint = none := rfl
  cases hfree : pending.find Pubkey.default with
  | none =>
      refine .inl ⟨rfl, ?_⟩
      simp only [toAssetsRound, slotFor, hnew, hfree, error_bind]
  | some amounts =>
      obtain rfl : amounts = 0 := hp.vacant _ (mem_of_find hfree) rfl
      have hround : toAssetsRound .RedeemProcess supply shares [] pending mint amount
          = .ok ((pending.replace Pubkey.default ⟨mint, 0⟩).replace mint ⟨mint, user⟩,
            amount') := by
        simp only [toAssetsRound, slotFor, hnew, hfree, ok_bind]
        rw [hminimum, hexchange, ok_bind]
      obtain ⟨user', hsame, hbecomes⟩ := toAssetsRound_becomes hp hmint hround
      rw [contents_of_ne hmint, hnew, Option.getD_none, hminimum, hexchange] at hsame
      obtain rfl : user = user' := congrArg Prod.fst (Except.ok.inj hsame)
      exact .inr ⟨_, hround, hbecomes⟩

/-- Redeeming more new tokens than there are free slots fails. -/
theorem editAll_fresh (hp : BasketWF pending) (hkeys : (basket.map Slot.key).Nodup)
    (hfresh : ∀ s ∈ basket,
      s.key ≠ Pubkey.default ∧ s.value = amount ∧ pending.find s.key = none)
    (hexchange : exchange .RedeemProcess 0 amount supply shares none = .ok (user, amount'))
    (hroom : freeSlots Pubkey.default pending < basket.length) :
    editAll Pubkey.default (toAssetsRound .RedeemProcess supply shares []) pending basket
      = .error (.code .MintMismatch) := by
  induction basket generalizing pending with
  | nil => exact absurd hroom (Nat.not_lt_zero _)
  | cons s rest ih =>
      obtain ⟨hmint, rfl, hnew⟩ := hfresh s (List.mem_cons_self ..)
      rw [List.map_cons, List.nodup_cons] at hkeys
      rw [editAll, if_neg hmint]
      rcases toAssetsRound_fresh hp hmint hnew hexchange with ⟨-, hround⟩ | ⟨pending', hround, h'⟩
      · rw [hround, error_bind]
      · have hfree := h'.freeSlots_insert hp (by rw [contents_of_ne hmint, hnew])
        rw [List.length_cons] at hroom
        have hrest := ih h'.wf hkeys.2 (fun t ht => ?_) (by omega)
        · rw [hround, ok_bind]
          simp only [hrest, error_bind]
        -- the slot taken for `s` is not that of a later token
        · obtain ⟨hne, hvalue, hnone⟩ := hfresh t (List.mem_cons_of_mem _ ht)
          refine ⟨hne, hvalue, ?_⟩
          have hother : t.key ≠ s.key := fun heq =>
            hkeys.1 (heq ▸ List.mem_map_of_mem ht)
          rw [← contents_of_ne hne (l := pending'), h'.contents, Function.update_of_ne hother,
            contents_of_ne hne, hnone]

/-- One of each of new tokens. -/
def newTokens (above count : ℕ) : FolioBasket :=
  (List.range count).map fun i => ⟨above + 1 + i, 1⟩

theorem newTokens_keys (above count : ℕ) : ((newTokens above count).map Slot.key).Nodup := by
  rw [newTokens, List.map_map]
  exact List.Nodup.map (fun i j hij => Nat.add_left_cancel hij) List.nodup_range

theorem newTokens_wf (above count : ℕ) : BasketWF (newTokens above count) where
  vacant s hs hkey := by
    obtain ⟨i, -, rfl⟩ := List.mem_map.mp hs
    have hpos : above + 1 + i = 0 := hkey
    omega
  distinct := by
    refine (List.pairwise_map.mp (newTokens_keys above count)).imp fun hne heq => ?_
    exact absurd heq hne

/-- A folio that was poked at the beginning and has no fees. -/
def plainFolio : Folio where
  status := .Initialized
  folioTokenMint := 0
  tvlFee := 0
  mintFee := 0
  daoPendingFeeShares := 0
  feeRecipientsPendingFeeShares := 0
  auctionLength := 0
  lastPoke := 0
  initializedAt := 0
  mandate := []
  feeRecipientsPendingFeeSharesToBeMinted := 0

theorem plainFolio_poke (rawSupply : ℕ) (fee : DaoFee) :
    plainFolio.poke rawSupply 0 fee = .ok plainFolio := rfl

/-- There is no slot for the hundredth of a hundred new tokens if eleven mints are in the way. -/
theorem toAssets_newTokens {above : ℕ} (hp : BasketWF pending)
    (hlength : pending.length = maxUserPendingBasketTokenAmounts)
    (habove : ∀ mint ∈ used Pubkey.default pending, mint ≤ above)
    (hmany : 10 < (used Pubkey.default pending).card) (fee : DaoFee) :
    pending.toAssets 1 1 (newTokens above maxFolioTokenAmounts) plainFolio .RedeemProcess 0 fee []
      = .error (.code .MintMismatch) := by
  have hsupply : plainFolio.getTotalSupply 1 = .ok ⟨1 * d9⟩ := rfl
  have hshares : fromTokenAmount 1 = .ok ⟨1 * d9⟩ := rfl
  have hfree := freeSlots_add_card hp
  have hpass : editAll Pubkey.default
      (toAssetsRound .RedeemProcess ⟨1 * d9⟩ ⟨1 * d9⟩ []) pending
      (newTokens above maxFolioTokenAmounts) = .error (.code .MintMismatch) := by
    refine editAll_fresh hp (newTokens_keys ..) (fun s hs => ?_) exchange_whole ?_
    · obtain ⟨i, -, rfl⟩ := List.mem_map.mp hs
      have hpos : above + 1 + i ≠ Pubkey.default := by
        show above + 1 + i ≠ 0
        omega
      refine ⟨hpos, rfl, ?_⟩
      by_contra hsome
      have hmem : above + 1 + i ∈ used Pubkey.default pending := by
        rw [mem_used, contents_of_ne hpos]
        exact Option.isSome_iff_ne_none.mpr hsome
      have hle : above + 1 + i ≤ above := habove _ hmem
      omega
    · rw [newTokens, List.length_map, List.length_range]
      simp only [maxUserPendingBasketTokenAmounts, maxFolioTokenAmounts] at hlength ⊢
      omega
  rw [toAssets, plainFolio_poke, ok_bind, hsupply, ok_bind, hshares, ok_bind, hpass, error_bind]

theorem card_newTokens (above : ℕ) :
    (used Pubkey.default (newTokens above maxFolioTokenAmounts)).card ≤ maxFolioTokenAmounts := by
  have hfree := freeSlots_add_card (newTokens_wf above maxFolioTokenAmounts)
  rw [newTokens, List.length_map, List.length_range] at hfree
  exact (Nat.le_add_left ..).trans hfree.le

/-- There is room for a hundred tokens exactly if no more than ten mints are in the way. -/
theorem neverLacksSlot_iff (hp : BasketWF pending)
    (hlength : pending.length = maxUserPendingBasketTokenAmounts) :
    pending.NeverLacksSlot ↔ (used Pubkey.default pending).card ≤ 10 := by
  constructor
  · intro hnever
    by_contra hmany
    refine hnever (newTokens ((used Pubkey.default pending).sup id) maxFolioTokenAmounts)
      (newTokens_wf ..) (card_newTokens _) 1 1 plainFolio 0 ⟨0, 1, 0⟩ []
      (toAssets_newTokens hp hlength ?_ ?_ _)
    · exact fun mint hmint => Finset.le_sup (f := id) hmint
    · exact Nat.not_le.mp hmany
  · intro hfew basket hb hbasket rawShares rawSupply folio now fee minimumOut hfail
    have hshort := toAssets_shortage hp hb hfail
    have hfree := freeSlots_add_card hp
    have hnew := Finset.card_le_card
      (Finset.sdiff_subset (s := used Pubkey.default basket) (t := used Pubkey.default pending))
    simp only [maxUserPendingBasketTokenAmounts, maxFolioTokenAmounts] at hlength hbasket
    omega

end UserPendingBasket

namespace Baskets

variable {ops : List Op}

/-- **An empty pending basket redeems whatever the folio holds if, and only if, at most ten of its
slots still have a mint**, after any operations. -/
theorem empty_basket_redeems_iff (hops : ∀ op ∈ ops, op.NonDefault) (user : Pubkey) :
    (((run step init ops).pending user).isEmpty = true →
        ((run step init ops).pending user).NeverLacksSlot) ↔
      (((run step init ops).pending user).isEmpty = true →
        (used Pubkey.default ((run step init ops).pending user)).card ≤ 10) := by
  have hwf := run_wf hops
  rw [UserPendingBasket.neverLacksSlot_iff (hwf.pending user) (hwf.pending_length user)]

/-- A user pays for a share with all she had brought: one of each of eleven tokens. -/
def mintedOut : List Op :=
  [.addTokensToBasket (UserPendingBasket.newTokens 0 11),
    .addTokenAmountsToFolio 1 ((List.range 11).map fun i => ⟨i + 1, ⟨1, 0⟩⟩) true .MintProcess,
    .toAssets 1 1 1 UserPendingBasket.plainFolio .MintProcess 0 ⟨0, 1, 0⟩ []]

theorem mintedOut_nonDefault : ∀ op ∈ mintedOut, op.NonDefault := by
  simp [mintedOut, Op.NonDefault, Pubkey.default]

theorem empty_basket_redeems_iff_mintedOut :
    (((run step init mintedOut).pending 1).isEmpty = true →
        ((run step init mintedOut).pending 1).NeverLacksSlot) ↔
      (((run step init mintedOut).pending 1).isEmpty = true →
        (used Pubkey.default ((run step init mintedOut).pending 1)).card ≤ 10) :=
  empty_basket_redeems_iff mintedOut_nonDefault 1

/-- Her basket is empty, and cannot take what a folio of a hundred other tokens gives her. -/
theorem mintedOut_lacks_slot :
    ((run step init mintedOut).pending 1).isEmpty = true ∧
      BasketWF (UserPendingBasket.newTokens 11 maxFolioTokenAmounts) ∧
      (used Pubkey.default (UserPendingBasket.newTokens 11 maxFolioTokenAmounts)).card
        ≤ maxFolioTokenAmounts ∧
      ((run step init mintedOut).pending 1).toAssets 1 1
          (UserPendingBasket.newTokens 11 maxFolioTokenAmounts) UserPendingBasket.plainFolio
          .RedeemProcess 0 ⟨0, 1, 0⟩ []
        = .error (.code .MintMismatch) := by
  have hwf := run_wf mintedOut_nonDefault
  have hused : used Pubkey.default ((run step init mintedOut).pending 1)
      = (Finset.range 11).image (· + 1) := by decide +kernel
  refine ⟨by decide +kernel, UserPendingBasket.newTokens_wf .., UserPendingBasket.card_newTokens _,
    UserPendingBasket.toAssets_newTokens (hwf.pending 1) (hwf.pending_length 1) ?_ ?_ _⟩
  · rw [hused]
    decide
  · rw [hused]
    decide

end Baskets

end IndexDtf

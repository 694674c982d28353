import IndexDtf.Folio.Distribution
import IndexDtf.Folio.Solvency

/-!
# IndexDtf.Folio.Cranking

Fee distributions over runs of the program, with any number of them open at a time and
any cranks in any order.

* `cranked_once` — every slot is paid at most once, its part of the amount, and the
  counter always covers what is taken off it;
* `counter_cleared` — the counter is cleared exactly by the distributions whose amount
  splits evenly: what the others round off is never minted and never taken off.
-/

namespace IndexDtf

open Lib Decimal FolioBooks FeeDistribution

namespace World

variable {T : TokenProgram} {w w' : World T} {f : Pubkey} {k : Pubkey × ℕ} {d : FeeDistribution}

/-! ### Reachable worlds -/

theorem Fresh.distributionsWF (h : w.Fresh) : w.books.folios.DistributionsWF where
  folio := fun f _ hr => absurd (hr.symm.trans (h.feeRecipients f)) nofun
  recipients := fun f _ hr => absurd (hr.symm.trans (h.feeRecipients f)) nofun
  index := fun f i _ hd => absurd (hd.symm.trans (h.feeDistribution (f, i))) nofun
  sound := fun k _ hd => absurd (hd.symm.trans (h.feeDistribution k)) nofun
  pending := fun k _ hd => absurd (hd.symm.trans (h.feeDistribution k)) nofun

theorem distributionsWF_step {i : Instruction T} (hwf : w.books.folios.DistributionsWF)
    (h : w.step i = .ok w') : w'.books.folios.DistributionsWF :=
  (step_folios h).keeps (fun _ _ _ hs hstep => hs.step hstep) hwf

theorem Reachable.distributionsWF (h : w.Reachable) : w.books.folios.DistributionsWF :=
  Lib.Reachable.inv (I := fun w : World T => w.books.folios.DistributionsWF)
    (fun _ => Fresh.distributionsWF) (fun _ _ _ => distributionsWF_step) h

/-- The counter covers what the open distributions owe. -/
def Backed (s : FolioBooks) : Prop :=
  s.DistributionsWF ∧ ∀ f, s.outstanding f * d9 ≤ s.toBeMinted f

theorem Backed.step {s s' : FolioBooks} {log : List FeePayment} (hs : Backed s)
    (h : FolioStep s log s') : Backed s' := by
  refine ⟨hs.1.step h, fun f => ?_⟩
  obtain ⟨lost, hmoves, -⟩ := hs.1.counter_step (f := f) h
  have hle := hs.2 f
  omega

theorem Fresh.outstanding (h : w.Fresh) (f : Pubkey) : w.books.folios.outstanding f = 0 := by
  refine Finset.sum_eq_zero fun i _ => ?_
  simp only [owedAt, Books.folios, h.feeDistribution, Option.elim_none]

theorem Reachable.backed (h : w.Reachable) : Backed w.books.folios := by
  refine Lib.Reachable.inv (I := fun w : World T => Backed w.books.folios) (fun w₀ h₀ => ?_)
    (fun _ _ _ hs hstep => ?_) h
  · refine ⟨h₀.distributionsWF, fun f => ?_⟩
    rw [h₀.outstanding, Nat.zero_mul]
    exact Nat.zero_le _
  · exact (step_folios hstep).keeps (fun _ _ _ hs hstep => hs.step hstep) hs

/-! ### One distribution from its opening on -/

/-- An instruction opens the distribution `d`. -/
structure Opens (w w' : World T) (k : Pubkey × ℕ) (d : FeeDistribution) : Prop where
  reachable : w.Reachable
  step : ∃ i, w.step i = .ok w'
  closed : w.books.feeDistribution k = none
  opened : w'.books.feeDistribution k = some d

theorem Opens.after (h : Opens w w' k d) : w'.Reachable := by
  obtain ⟨i, hi⟩ := h.step
  exact h.reachable.step hi

theorem Opens.since (h : Opens w w' k d) : Since k d [] w'.books.folios where
  wf := h.after.distributionsWF
  index := (h.after.distributionsWF.index k.1 k.2 d h.opened).2
  after := ⟨d, .refl d, by
    rw [h.after.distributionsWF.pending k d h.opened]
    exact h.opened⟩

/-- What a run pays out of a distribution. -/
def paidTo (k : Pubkey × ℕ) (w : World T) (inputs : List (Instruction T)) : List SlotPayment :=
  paymentsOf k (trace step (fun w i => w.books.payments i) w inputs)

theorem since_run (h : Since k d [] w.books.folios) (inputs : List (Instruction T)) :
    Since k d (paidTo k w inputs) (run step w inputs).books.folios := by
  have hs : Since k d (paymentsOf k []) w.books.folios := h
  refine trace_inv (p := [])
    (I := fun (w : World T) past => Since k d (paymentsOf k past) w.books.folios)
    inputs (fun w past i w' hs hstep => ?_) hs
  refine (step_folios hstep).inv (I := fun s past => Since k d (paymentsOf k past) s)
    (fun s past log s' hs hstep => ?_) hs
  rw [paymentsOf_append]
  exact hs.step hstep

/-- The counter of a folio covers whatever its cranks take off it. -/
def CounterCovers (b : Books T) (f : Pubkey) : Prop :=
  ∀ index d folio indices addresses ledger state total,
    b.feeDistribution (f, index) = some d → b.folio f = some folio →
    Books.payRecipients f d b.ledger d.feeRecipientsState 0 indices addresses
      = .ok (ledger, state, total) →
    ∃ scaled, (do (← fromTokenAmount total).toScaled .Floor) = .ok scaled ∧
      ∃ left, checkedSub folio.feeRecipientsPendingFeeSharesToBeMinted scaled = .ok left

theorem Reachable.counterCovers (h : w.Reachable) : CounterCovers w.books f := by
  intro index d folio indices addresses ledger state total hd hfolio hloop
  obtain ⟨hwf, hbacked⟩ := h.backed
  obtain ⟨paid, hpay, -, htotal⟩ := Books.payRecipients_spec hloop
  have hsound := hwf.sound (f, index) d hd
  have howed : _ + paidTotal paid = d.owed := (pay_after hsound hpay).owed
  have hsmall := hsound.owed_mul_le
  have hcounter : w.books.folios.toBeMinted f = folio.feeRecipientsPendingFeeSharesToBeMinted := by
    simp only [toBeMinted, Books.folios, hfolio, Option.elim_some]
  have hopen : d.owed ≤ w.books.folios.outstanding f := by
    have hmem : index ∈ Finset.range (w.books.folios.lastIndex f + 1) :=
      Finset.mem_range.mpr (Nat.lt_succ_of_le (hwf.index f index d hd).2)
    have howedAt : w.books.folios.owedAt (f, index) = d.owed := by
      simp only [owedAt, Books.folios, hd, Option.elim_some]
    exact howedAt ▸ Finset.single_le_sum (f := fun i => w.books.folios.owedAt (f, i))
      (fun _ _ => Nat.zero_le _) hmem
  have hle : total * d9 ≤ d.owed * d9 := Nat.mul_le_mul_right d9 (by omega)
  have hfits : total * d9 ≤ u128Max := hle.trans hsmall
  refine ⟨total * d9, ?_, _, checkedSub_eq_ok.mpr ⟨?_, rfl⟩⟩
  · have hbig : total * d9 < u256Bound := lt_of_le_of_lt hfits (by decide)
    rw [fromTokenAmount_eq_ok.mpr ⟨hbig, rfl⟩, ok_bind, toScaled_floor, Nat.min_eq_left hfits]
  · rw [← hcounter]
    exact hle.trans ((Nat.mul_le_mul_right d9 hopen).trans (hbacked f))

/-- **Cranking pays every slot at most once**, in any order: its part of the amount, and
no more than the amount altogether. What a crank mints is what the record says, and the
subtraction from the counter never fails. -/
theorem cranked_once (h : Opens w w' k d) (inputs : List (Instruction T)) :
    ((paidTo k w' inputs).map (·.slot)).Nodup ∧
    (∀ p ∈ paidTo k w' inputs, ∃ r, d.feeRecipientsState[p.slot]? = some r ∧
      r.recipient = p.recipient ∧
      p.amount = d.amountToDistribute * r.portion / maxFeeRecipientsPortion / d9) ∧
    paidTotal (paidTo k w' inputs) ≤ d.amountToDistribute / d9 ∧
    (∀ index indices addresses v,
      (run step w' inputs).step (.crank (.crankFeeDistribution k.1 index indices addresses)) = .ok v →
      Books.mintAll k.1 (run step w' inputs).books.ledger
        (((run step w' inputs).books.payments
          (.crank (.crankFeeDistribution k.1 index indices addresses))).map (·.payment))
        = some v.books.ledger) ∧
    CounterCovers (run step w' inputs).books k.1 := by
  obtain ⟨d', hafter, -⟩ := (since_run h.since inputs).after
  have hsound := h.after.distributionsWF.sound k d h.opened
  refine ⟨hafter.once, fun p hp => ?_, ?_, fun index indices addresses v hv => ?_,
    Reachable.counterCovers (h.after.run inputs)⟩
  · obtain ⟨r, hr, hrecipient, -, hamount⟩ := hafter.entitled p hp
    exact ⟨r, hr, hrecipient, hamount⟩
  · rw [Nat.le_div_iff_mul_le (by decide)]
    have howed := hafter.owed
    exact le_trans (Nat.mul_le_mul_right d9 (by omega)) hsound.owed_le
  · simp only [step, onBooks_eq_ok] at hv
    obtain ⟨_, _, _, paid, _, -, -, -, -, hpayments, hmint, -⟩ :=
      Books.crankFeeDistribution_spec hv.1
    rw [hpayments, List.map_map]
    exact (congrArg (Books.mintAll k.1 _) (List.map_id paid)).trans hmint

/-! ### A distribution to two recipients -/

/-- Folio 5 has the recipients 21 and 22, and a percent of what is minted is theirs. -/
def shared (portion : ℕ) : List (Instruction TokenProgram.simple) :=
  [.admin (.setDaoFeeConfig admin (some 9) (some 0) (some 0)),
    .owner (.initFolio 5 3 0 10000000000000000 60 []),
    .outside (.openAccount (.external 3) 7),
    .outside (.issue (.external 3) 7 1000),
    .outside (.openAccount (.folio 5) 7),
    .outside (.openAccount (.external 3) 5),
    .outside (.openAccount (.external 9) 5),
    .outside (.openAccount (.external 21) 5),
    .outside (.openAccount (.external 22) 5),
    .owner (.addToBasket 5 3 [⟨7, (.external 3, 7), (.folio 5, 7)⟩] [600] (some 1000000000)),
    .owner (.updateFolio 5 3 ⟨none, none, none, none,
      [⟨21, portion⟩, ⟨22, maxFeeRecipientsPortion - portion⟩], [], none⟩),
    .user (.addToPendingBasket 5 3 [⟨7, (.external 3, 7), (.folio 5, 7)⟩] [100]),
    .user (.mintFolioToken 5 3 100000000 none)]

/-- The distribution of the million raw shares of the recipients. -/
def sharing (portion : ℕ) : FeeDistribution :=
  ⟨1, 3, 1000000 * d9,
    [⟨21, portion⟩, ⟨22, maxFeeRecipientsPortion - portion⟩]
      ++ List.replicate 62 FeeRecipient.default⟩

/-- The world after the distribution is opened. -/
def distributing (portion : ℕ) : World TokenProgram.simple :=
  run step (genesis SimpleLedger.empty 1000000) (shared portion ++ [.crank (.distributeFees 5 3 1)])

/-- Recipient 22 is paid first, and not again. -/
def crankAll : List (Instruction TokenProgram.simple) :=
  [.crank (.crankFeeDistribution 5 1 [1] [(.external 22, 5)]),
    .crank (.crankFeeDistribution 5 1 [1, 0] [(.external 22, 5), (.external 21, 5)])]

/-- The world in which it is opened. -/
def undistributed (portion : ℕ) : World TokenProgram.simple :=
  run step (genesis SimpleLedger.empty 1000000) (shared portion)

theorem opens_sharing {portion : ℕ}
    (hok : ∃ w', (undistributed portion).step (.crank (.distributeFees 5 3 1)) = .ok w' ∧ True)
    (hclosed : (undistributed portion).books.feeDistribution (5, 1) = none)
    (hopened : (distributing portion).books.feeDistribution (5, 1) = some (sharing portion)) :
    Opens (undistributed portion) (distributing portion) (5, 1) (sharing portion) where
  reachable := reachable_genesis ..
  step := by
    obtain ⟨w', hw', -⟩ := hok
    refine ⟨_, hw'.trans (congrArg _ ?_)⟩
    rw [distributing, run_append, run_cons, run_nil, ← undistributed, attempt_ok hw']
  closed := hclosed
  opened := hopened

theorem opens_thirds : Opens (undistributed 333333333333333333)
    (distributing 333333333333333333) (5, 1) (sharing 333333333333333333) :=
  opens_sharing (by decide +kernel) (by decide +kernel) (by decide +kernel)

theorem opens_halves : Opens (undistributed 500000000000000000)
    (distributing 500000000000000000) (5, 1) (sharing 500000000000000000) :=
  opens_sharing (by decide +kernel) (by decide +kernel) (by decide +kernel)

/-- The thirds of a million: a raw share is left. -/
theorem cranked_once_thirds :
    paidTo (5, 1) (distributing 333333333333333333) crankAll
        = [⟨1, 22, 666666⟩, ⟨0, 21, 333333⟩] ∧
      ((paidTo (5, 1) (distributing 333333333333333333) crankAll).map (·.slot)).Nodup ∧
      paidTotal (paidTo (5, 1) (distributing 333333333333333333) crankAll)
        ≤ (sharing 333333333333333333).amountToDistribute / d9 ∧
      CounterCovers (run step (distributing 333333333333333333) crankAll).books 5 := by
  obtain ⟨hnodup, -, htotal, -, hcovers⟩ := cranked_once opens_thirds crankAll
  exact ⟨by decide +kernel, hnodup, htotal, hcovers⟩

/-! ### The counter -/

/-- The counter of a folio. -/
def toBeMinted (w : World T) (f : Pubkey) : ℕ := w.books.folios.toBeMinted f

/-- What a crank of a distribution takes off the counter. -/
def crankDrop (k : Pubkey × ℕ) (w : World T) : Instruction T → List ℕ
  | .crank (.crankFeeDistribution f index indices addresses) =>
      if (f, index) = k then
        match w.step (.crank (.crankFeeDistribution f index indices addresses)) with
        | .ok w' => [w.toBeMinted f - w'.toBeMinted f]
        | .error _ => []
      else []
  | _ => []

/-- The counter drops by what is paid. -/
theorem crankDrop_sum {i : Instruction T} (hwf : w.books.folios.DistributionsWF)
    (h : w.step i = .ok w') :
    (crankDrop k w i).sum = paidTotal (paymentsOf k (w.books.payments i)) * d9 := by
  -- only cranks pay and drop anything
  have hnone (hdrop : crankDrop k w i = []) (hpay : w.books.payments i = []) :
      (crankDrop k w i).sum = paidTotal (paymentsOf k (w.books.payments i)) * d9 := by
    rw [hdrop, hpay, paymentsOf_nil, paidTotal, List.map_nil, List.sum_nil, Nat.zero_mul]
  cases i with
  | user | owner | admin | auction | elapse | outside => exact hnone rfl rfl
  | crank i =>
      cases i with
      | pokeFolio | distributeFees => exact hnone rfl rfl
      | crankFeeDistribution f index indices addresses =>
          have hcrank := h
          simp only [step, onBooks_eq_ok] at hcrank
          obtain ⟨before, d, state, paid, taken, hfound, -, hd, hpay, hpayments, -, htaken, hcovered,
            hafter⟩ := Books.crankFeeDistribution_spec hcrank.1
          rw [hpayments, paymentsOf_map]
          by_cases hk : (f, index) = k
          · have howed : _ + paidTotal paid = d.owed := (pay_after (hwf.sound _ d hd) hpay).owed
            have hfits : paidTotal paid * d9 ≤ u128Max :=
              le_trans (Nat.mul_le_mul_right d9 (by omega)) (hwf.sound _ d hd).owed_mul_le
            rw [Nat.min_eq_left hfits] at htaken
            simp only [crankDrop, if_pos hk, h, List.sum_singleton]
            have hleft : w.toBeMinted f = before.feeRecipientsPendingFeeSharesToBeMinted := by
              simp only [World.toBeMinted, FolioBooks.toBeMinted, Books.folios, hfound,
                Option.elim_some]
            have hright : w'.toBeMinted f
                = before.feeRecipientsPendingFeeSharesToBeMinted - taken := by
              simp only [World.toBeMinted, FolioBooks.toBeMinted, hafter, Function.update_self,
                Option.elim_some]
            rw [hleft, hright, ← htaken]
            omega
          · simp only [crankDrop, if_neg hk, List.sum_nil, paidTotal, List.map_nil, Nat.zero_mul]

/-- Since its opening the counter dropped by what the distribution does not owe any more. -/
theorem crankDrop_run (h : Opens w w' k d) (inputs : List (Instruction T)) :
    ∃ d', d'.owed * d9 + (trace step (crankDrop k) w' inputs).sum = d.owed * d9 ∧
      (run step w' inputs).books.feeDistribution k
        = if d'.isFullyDistributed then none else some d' := by
  have hinv : ∃ payments, Since k d payments (run step w' inputs).books.folios ∧
      (trace step (crankDrop k) w' inputs).sum = paidTotal payments * d9 := by
    refine trace_inv (p := []) (I := fun (w : World T) past =>
        ∃ payments, Since k d payments w.books.folios ∧ past.sum = paidTotal payments * d9)
      inputs (fun w₁ past i w₂ hs hstep => ?_) ⟨[], h.since, (Nat.zero_mul _).symm⟩
    obtain ⟨payments, hsince, hsum⟩ := hs
    refine ⟨payments ++ paymentsOf k (w₁.books.payments i), ?_, ?_⟩
    · refine (step_folios hstep).inv (p := [])
        (I := fun s past => Since k d (payments ++ paymentsOf k past) s)
        (fun s past log s' hs hstep => ?_) (by rwa [paymentsOf_nil, List.append_nil])
      rw [paymentsOf_append, ← List.append_assoc]
      exact hs.step hstep
    · rw [List.sum_append, hsum, crankDrop_sum hsince.wf hstep, paidTotal_append, Nat.add_mul]
  obtain ⟨payments, hsince, hsum⟩ := hinv
  obtain ⟨d', hafter, hfound⟩ := hsince.after
  exact ⟨d', by rw [hsum, ← Nat.add_mul, hafter.owed], hfound⟩

/-- The condition on an input that what it opens splits evenly. -/
def OpensEvenly (w : World T) (i : Instruction T) : Prop :=
  ∀ w', w.step i = .ok w' → FolioBooks.OpensEvenly w.books.folios w'.books.folios

/-- The counter moves with what the open distributions owe. -/
theorem counterMoves_step {i : Instruction T} (hwf : w.books.folios.DistributionsWF)
    (h : w.step i = .ok w') : CounterMoves w.books.folios w'.books.folios f := by
  cases i with
  | user | owner | admin | auction | elapse | outside => exact hwf.counter_steps (step_folios h) rfl
  | crank i =>
      cases i with
      | pokeFolio | distributeFees => exact hwf.counter_steps (step_folios h) rfl
      | crankFeeDistribution f index indices recipients =>
          simp only [step, onBooks_eq_ok] at h
          exact hwf.counter_step (Books.crankFeeDistribution_folios h.1)

/-- In a run whose distributions all split evenly the counter is what they owe. -/
theorem toBeMinted_run {inputs : List (Instruction T)} (h : w.Fresh)
    (heven : RunMeets step OpensEvenly w inputs) :
    (run step w inputs).toBeMinted f = (run step w inputs).books.folios.outstanding f * d9 := by
  have hinit : w.toBeMinted f = w.books.folios.outstanding f * d9 := by
    rw [h.outstanding, Nat.zero_mul, World.toBeMinted, FolioBooks.toBeMinted]
    simp only [Books.folios, h.folio, Option.elim_none]
  refine (RunMeets.inv (I := fun w : World T => w.books.folios.DistributionsWF ∧
    w.toBeMinted f = w.books.folios.outstanding f * d9) (fun w₁ i w₂ heven hw₁ hstep => ?_)
    heven ⟨h.distributionsWF, hinit⟩).2
  obtain ⟨hwf, hcounter⟩ := hw₁
  obtain ⟨lost, hmoves, hlost⟩ := counterMoves_step (f := f) hwf hstep
  refine ⟨distributionsWF_step hwf hstep, ?_⟩
  rw [hlost (heven w₂ hstep), Nat.add_zero] at hmoves
  rw [World.toBeMinted] at hcounter ⊢
  omega

/-- **A distribution clears the counter** exactly when its amount splits evenly: once it is
closed, the counter has dropped by the whole amount. If all distributions of a run split
evenly, the counter is zero whenever none is open. -/
theorem counter_cleared :
    (∀ (w w' : World T) k d inputs, Opens w w' k d →
      (run step w' inputs).books.feeDistribution k = none →
      ((trace step (crankDrop k) w' inputs).sum = d.amountToDistribute ↔ SplitsEvenly d)) ∧
    ∀ (w : World T) f inputs, w.Fresh → RunMeets step OpensEvenly w inputs →
      (∀ i, (run step w inputs).books.feeDistribution (f, i) = none) →
      (run step w inputs).toBeMinted f = 0 := by
  constructor
  · intro w w' k d inputs hopens hclosed
    obtain ⟨d', hsum, hfound⟩ := crankDrop_run hopens inputs
    have hdone : d'.isFullyDistributed = true := by
      rw [hclosed] at hfound
      split at hfound
      · assumption
      · cases hfound
    rw [owed_eq_zero hdone, Nat.zero_mul, Nat.zero_add] at hsum
    rw [hsum]
    exact owed_eq_iff (hopens.after.distributionsWF.sound k d hopens.opened)
  · intro w f inputs hfresh heven hclosed
    rw [toBeMinted_run hfresh heven, FolioBooks.outstanding, Finset.sum_eq_zero, Nat.zero_mul]
    intro i _
    simp only [owedAt, Books.folios, hclosed, Option.elim_none]

/-- Halves of a million come out even. -/
theorem counter_cleared_halves :
    (trace step (crankDrop (5, 1)) (distributing 500000000000000000) crankAll).sum
      = 1000000 * d9 := by
  have hclosed : (run step (distributing 500000000000000000) crankAll).books.feeDistribution (5, 1)
      = none := by decide +kernel
  have heven : SplitsEvenly (sharing 500000000000000000) := by decide +kernel
  exact (counter_cleared.1 _ _ _ _ _ opens_halves hclosed).mpr heven

/-- Both recipients are paid and the account is closed, but the raw share that was rounded
off is still counted. -/
theorem share_stranded_by_thirds :
    Opens (undistributed 333333333333333333) (distributing 333333333333333333) (5, 1)
        (sharing 333333333333333333) ∧
      (run step (distributing 333333333333333333) crankAll).books.feeDistribution (5, 1) = none ∧
      (trace step (crankDrop (5, 1)) (distributing 333333333333333333) crankAll).sum + d9
        = (sharing 333333333333333333).amountToDistribute ∧
      (run step (distributing 333333333333333333) crankAll).toBeMinted 5 = d9 :=
  ⟨opens_thirds, by decide +kernel⟩

end World

end IndexDtf

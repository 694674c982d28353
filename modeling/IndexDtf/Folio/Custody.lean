import IndexDtf.Folio.Program
import IndexDtf.Folio.BasketSpec
import IndexDtf.Lib.Accounts
import IndexDtf.Lib.Vault

/-!
# IndexDtf.Folio.Custody

What every instruction does to the custody of the folios. A folio is a vault for each
mint (`Books.vault`): its own part is its basket, the claims are the pending baskets
of its users, the assets are what its PDA holds. Every instruction settles all of
these vaults with one user (`Settled`), and keeps the token lists well formed.

* `moveAll_rel` — the rule for the loops over remaining accounts;
* `Moved` — what came in and what went out of the folios' token accounts.
-/

namespace IndexDtf

open Lib SlotArray

namespace Books

variable {T : TokenProgram} {b b' b'' : Books T} {f user signer : Pubkey} {l l' l'' : T.Ledger}

/-- The amount of a mint in the basket of a folio. -/
def basketAmount (b : Books T) (f mint : Pubkey) : ℕ := (b.folioBasket f).elim 0 (·.lookup mint)

/-- The amounts of a mint in the pending basket of a user. -/
def pendingAmounts (b : Books T) (f user mint : Pubkey) : PendingAmounts :=
  (b.userPendingBasket (f, user)).elim 0 (·.lookup mint)

/-- A folio as a vault for a mint. -/
def vault (b : Books T) (f mint : Pubkey) : Vault Pubkey where
  own := b.basketAmount f mint
  claims := fun user => (b.pendingAmounts f user mint).total
  assets := T.held b.ledger (.folio f) mint

/-- All token lists are well formed. -/
structure BasketsWF (b : Books T) : Prop where
  folioBasket : ∀ f basket, b.folioBasket f = some basket → BasketWF basket
  userPendingBasket : ∀ k pending, b.userPendingBasket k = some pending → BasketWF pending

/-- What an instruction does to custody, with the user it is about. -/
structure Settled (user : Pubkey) (b b' : Books T) : Prop where
  wf : b.BasketsWF → b'.BasketsWF
  vault : b.BasketsWF → T.Lawful → ∀ g m, (b.vault g m).Settles user (b'.vault g m)

theorem Settled.trans (h : Settled user b b') (h' : Settled user b' b'') :
    Settled user b b'' where
  wf := fun hwf => h'.wf (h.wf hwf)
  vault := fun hwf hT g m => (h.vault hwf hT g m).trans (h'.vault (h.wf hwf) hT g m)

/-- No folio loses tokens. -/
def Keeps (l l' : T.Ledger) : Prop := ∀ g m, T.held l (.folio g) m ≤ T.held l' (.folio g) m

/-- An instruction that leaves the token lists alone. -/
theorem Settled.of_keeps (hb : b'.folioBasket = b.folioBasket)
    (hp : b'.userPendingBasket = b.userPendingBasket) (hl : T.Lawful → Keeps b.ledger b'.ledger) :
    Settled user b b' where
  wf := fun hwf => ⟨hb ▸ hwf.folioBasket, hp ▸ hwf.userPendingBasket⟩
  vault := fun _ hT g m => Vault.Settles.of_assets
    (by simp only [Books.vault, basketAmount, hb]) (by simp only [Books.vault, pendingAmounts, hp])
    (hl hT g m)

theorem Settled.refl : Settled user b b := .of_keeps rfl rfl fun _ _ _ => le_rfl

/-- An instruction on the basket of a folio and the pending basket of a user. -/
theorem Settled.of_lists {basket : Option FolioBasket} {pending : Option UserPendingBasket}
    (hb : b'.folioBasket = Function.update b.folioBasket f basket)
    (hp : b'.userPendingBasket = Function.update b.userPendingBasket (f, user) pending)
    (hwf : b.BasketsWF → (∀ x ∈ basket, BasketWF x) ∧ ∀ x ∈ pending, BasketWF x)
    (hothers : T.Lawful → ∀ g m, g ≠ f →
      T.held b.ledger (.folio g) m ≤ T.held b'.ledger (.folio g) m)
    (hbalance : b.BasketsWF → T.Lawful → ∀ m,
      basket.elim 0 (·.lookup m) + (pending.elim 0 (·.lookup m)).total
          + T.held b.ledger (.folio f) m
        ≤ b.basketAmount f m + (b.pendingAmounts f user m).total
          + T.held b'.ledger (.folio f) m) :
    Settled user b b' where
  wf := fun h => by
    obtain ⟨hbasket, hpending⟩ := hwf h
    refine ⟨?_, ?_⟩
    · rw [hb]
      exact forall_update hbasket fun g basket₁ _ => h.folioBasket g basket₁
    · rw [hp]
      exact forall_update hpending fun k pending₁ _ => h.userPendingBasket k pending₁
  vault := fun h hT g m => by
    by_cases hgf : g = f
    · subst hgf
      refine ⟨fun x hx => ?_, ?_⟩
      · have hne : (g, x) ≠ (g, user) := fun e => hx (Prod.mk.inj e).2
        simp only [Books.vault, pendingAmounts, hp, Function.update_of_ne hne]
      · have := hbalance h hT m
        simpa only [Books.vault, basketAmount, pendingAmounts, hb, hp, Function.update_self]
          using this
    · refine Vault.Settles.of_assets ?_ ?_ (hothers hT g m hgf)
      · simp only [Books.vault, basketAmount, hb, Function.update_of_ne hgf]
      · funext x
        have hne : (g, x) ≠ (f, user) := fun e => hgf (Prod.mk.inj e).1
        simp only [Books.vault, pendingAmounts, hp, Function.update_of_ne hne]

/-- An instruction on the basket of a folio. -/
theorem Settled.of_basket {basket : FolioBasket}
    (hb : b'.folioBasket = Function.update b.folioBasket f (some basket))
    (hp : b'.userPendingBasket = b.userPendingBasket)
    (hwf : b.BasketsWF → BasketWF basket)
    (hothers : T.Lawful → ∀ g m, g ≠ f →
      T.held b.ledger (.folio g) m ≤ T.held b'.ledger (.folio g) m)
    (hbalance : b.BasketsWF → T.Lawful → ∀ m,
      basket.lookup m + T.held b.ledger (.folio f) m
        ≤ b.basketAmount f m + T.held b'.ledger (.folio f) m) :
    Settled user b b' := by
  refine .of_lists hb (hp.trans (Function.update_eq_self (f, user) _).symm) (fun h => ⟨?_, ?_⟩)
    hothers fun h hT m => ?_
  · intro x hx
    cases hx
    exact hwf h
  · exact fun x hx => h.userPendingBasket (f, user) x hx
  · have := hbalance h hT m
    simp only [Option.elim_some, pendingAmounts]
    omega

/-- An instruction on the pending basket of a user. -/
theorem Settled.of_pending {pending : Option UserPendingBasket}
    (hb : b'.folioBasket = b.folioBasket)
    (hp : b'.userPendingBasket = Function.update b.userPendingBasket (f, user) pending)
    (hwf : b.BasketsWF → ∀ x ∈ pending, BasketWF x)
    (hothers : T.Lawful → ∀ g m, g ≠ f →
      T.held b.ledger (.folio g) m ≤ T.held b'.ledger (.folio g) m)
    (hbalance : b.BasketsWF → T.Lawful → ∀ m,
      (pending.elim 0 (·.lookup m)).total + T.held b.ledger (.folio f) m
        ≤ (b.pendingAmounts f user m).total + T.held b'.ledger (.folio f) m) :
    Settled user b b' := by
  refine .of_lists (hb.trans (Function.update_eq_self f _).symm) hp
    (fun h => ⟨fun x hx => h.folioBasket f x hx, hwf h⟩) hothers fun h hT m => ?_
  have := hbalance h hT m
  simp only [basketAmount]
  omega

/-! ### Token movements -/

/-- The rule for the loops over remaining accounts. -/
theorem moveAll_rel {R : List FolioTokenAmount → T.Ledger → T.Ledger → Prop}
    {round : T.Ledger → TokenAccounts T → ℕ → Result (T.Ledger × ℕ)}
    {moves : List (TokenAccounts T × ℕ)} {moved : List FolioTokenAmount}
    (hnil : ∀ l, R [] l l)
    (hcons : ∀ l accounts rawAmount l₁ amount rest l₂,
      round l accounts rawAmount = .ok (l₁, amount) → R rest l₁ l₂ →
        R (⟨accounts.mint, amount⟩ :: rest) l l₂)
    (h : moveAll round l moves = .ok (l', moved)) : R moved l l' := by
  induction moves generalizing l moved with
  | nil =>
      cases h
      exact hnil _
  | cons move rest ih =>
      obtain ⟨accounts, rawAmount⟩ := move
      simp only [moveAll, bind_eq_ok, Prod.exists, Except.ok.injEq, Prod.mk.injEq] at h
      obtain ⟨l₁, amount, hround, _, moved₁, hrest, rfl, rfl⟩ := h
      exact hcons _ accounts rawAmount l₁ amount moved₁ _ hround (ih hrest)

/-- What came into the token accounts of a folio and what went out of them. Those of
the other folios lost nothing. -/
def Moved (f : Pubkey) (gained lost : List FolioTokenAmount) (l l' : T.Ledger) : Prop :=
  ∀ g m, T.held l (.folio g) m + (if g = f then amountOf m gained else 0)
    ≤ T.held l' (.folio g) m + (if g = f then amountOf m lost else 0)

theorem Moved.others {gained lost : List FolioTokenAmount} (h : Moved f gained lost l l')
    (g m : Pubkey) (hg : g ≠ f) : T.held l (.folio g) m ≤ T.held l' (.folio g) m := by
  simpa only [if_neg hg, Nat.add_zero] using h g m

theorem Moved.self {gained lost : List FolioTokenAmount} (h : Moved f gained lost l l')
    (m : Pubkey) :
    T.held l (.folio f) m + amountOf m gained ≤ T.held l' (.folio f) m + amountOf m lost := by
  simpa only [if_true] using h f m

theorem Moved.trans {gained gained' lost lost' : List FolioTokenAmount}
    (h : Moved f gained lost l l') (h' : Moved f gained' lost' l' l'') :
    Moved f (gained ++ gained') (lost ++ lost') l l'' := by
  intro g m
  by_cases hg : g = f
  · subst hg
    have h₁ := h.self m
    have h₂ := h'.self m
    rw [if_pos rfl, if_pos rfl, amountOf_append, amountOf_append]
    omega
  · rw [if_neg hg, if_neg hg]
    exact (h.others g m hg).trans (h'.others g m hg)

theorem Moved.of_keeps (h : Keeps l l') : Moved f [] [] l l' := by
  intro g m
  simpa only [amountOf_nil, ite_self, Nat.add_zero] using h g m

theorem Keeps.trans (h : Keeps l l') (h' : Keeps l' l'') : Keeps l l'' :=
  fun g m => (h g m).trans (h' g m)

section Lawful

variable {source dest address : T.Address} {mint : Pubkey} {n : ℕ} {a : Authority}
  {call : T.Call}

/-- The authorities a folio's tokens are safe from. -/
def NotFolio (a : Authority) : Prop := ∀ g, a ≠ .folio g

theorem notFolio_external (key : Pubkey) : NotFolio (.external key) := fun _ => nofun

theorem notFolio_userPendingBasket (f user : Pubkey) : NotFolio (.userPendingBasket f user) :=
  fun _ => nofun

theorem Keeps.transfer (hT : T.Lawful) (ha : NotFolio a)
    (h : T.transferChecked l a source dest mint n = some l') : Keeps l l' :=
  fun g _ => hT.transfer_keeps trivial (ha g) h

theorem Keeps.close (hT : T.Lawful) (ha : NotFolio a) (h : T.closeAccount l a address = some l') :
    Keeps l l' :=
  fun g _ => hT.closeAccount_keeps trivial (ha g) h

theorem Keeps.burn (hT : T.Lawful) (ha : NotFolio a) (h : T.burn l a mint source n = some l') :
    Keeps l l' :=
  fun g _ => hT.burn_keeps trivial (ha g) h

theorem Keeps.mintTo (hT : T.Lawful) (h : T.mintTo l a mint dest n = some l') : Keeps l l' :=
  fun _ _ => hT.mintTo_keeps h

theorem Keeps.outside (hT : T.Lawful) (h : T.outside l call = some l') : Keeps l l' :=
  fun _ _ => hT.outside_keeps trivial h

/-- A transfer to a folio. -/
theorem Moved.transfer_in (hT : T.Lawful) (ha : NotFolio a)
    (h : T.transferChecked l a source (T.associated (.folio f) mint) mint n = some l') :
    Moved f [⟨mint, n⟩] [] l l' := by
  intro g m
  rw [amountOf_nil, ite_self, Nat.add_zero, amountOf_single]
  by_cases hg : g = f ∧ mint = m
  · obtain ⟨rfl, rfl⟩ := hg
    simpa only [if_true] using hT.transfer_in (p := .folio g) trivial (ha g) h
  · have hzero : (if g = f then if mint = m then n else 0 else 0) = 0 := by
      rw [← ite_and, if_neg hg]
    rw [hzero]
    exact Keeps.transfer hT ha h g m

/-- A transfer a folio signs. -/
theorem Moved.transfer_out (hT : T.Lawful)
    (h : T.transferChecked l (.folio f) source dest mint n = some l') :
    Moved f [] [⟨mint, n⟩] l l' := by
  intro g m
  rw [amountOf_nil, ite_self, Nat.add_zero, amountOf_single]
  by_cases hg : g = f
  · subst hg
    rw [if_pos rfl]
    simpa only [eq_comm] using hT.transfer_out h
  · have hne : Authority.folio f ≠ .folio g := fun e => hg (Authority.folio.inj e).symm
    rw [if_neg hg]
    exact hT.transfer_keeps (p := .folio g) trivial hne h

end Lawful

end Books

end IndexDtf

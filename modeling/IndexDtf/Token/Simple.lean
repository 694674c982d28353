import IndexDtf.Token.Program

/-!
# IndexDtf.Token.Simple

A token program that can be run: every token account is the associated one of its
owner, and the only thing that happens outside is that accounts are opened and
tokens of other issuers are handed to them. It is lawful, so what is assumed of the
token programs can be met.
-/

namespace IndexDtf

/-- The ledger of the simple token program. -/
structure SimpleLedger where
  opened : Finset (Authority × Pubkey)
  amount : Authority × Pubkey → ℕ
  supply : Pubkey → ℕ
  /-- The mints the folio program created. -/
  shareMints : Finset Pubkey

namespace SimpleLedger

/-- What happens outside. -/
inductive Call
  | openAccount (owner : Authority) (mint : Pubkey)
  /-- The issuer of a mint hands out tokens. -/
  | issue (owner : Authority) (mint : Pubkey) (n : ℕ)

variable (l : SimpleLedger) (signer : Authority) (source dest address : Authority × Pubkey)
  (m : Pubkey) (n : ℕ)

/-- No accounts. -/
def empty : SimpleLedger := ⟨∅, fun _ => 0, fun _ => 0, ∅⟩

def account : Option TokenAccount :=
  if address ∈ l.opened then some ⟨address.2, address.1, l.amount address⟩ else none

def createMint : Option SimpleLedger :=
  if m ∈ l.shareMints then none else some { l with shareMints := insert m l.shareMints }

def transferChecked : Option SimpleLedger :=
  if source ∈ l.opened ∧ dest ∈ l.opened ∧ source.2 = m ∧ dest.2 = m ∧ source.1 = signer ∧
      n ≤ l.amount source then
    some (if source = dest then l else { l with
      amount := Function.update (Function.update l.amount source (l.amount source - n)) dest
        (l.amount dest + n) })
  else none

/-- The issuer of `m` is its folio. -/
def mintTo : Option SimpleLedger :=
  if dest ∈ l.opened ∧ dest.2 = m ∧ signer = .folio m ∧ m ∈ l.shareMints ∧
      l.supply m + n ≤ u64Max then
    some { l with
      amount := Function.update l.amount dest (l.amount dest + n)
      supply := Function.update l.supply m (l.supply m + n) }
  else none

def burn : Option SimpleLedger :=
  if source ∈ l.opened ∧ source.2 = m ∧ source.1 = signer ∧ n ≤ l.amount source ∧
      n ≤ l.supply m then
    some { l with
      amount := Function.update l.amount source (l.amount source - n)
      supply := Function.update l.supply m (l.supply m - n) }
  else none

def closeAccount : Option SimpleLedger :=
  if address ∈ l.opened ∧ address.1 = signer ∧ l.amount address = 0 then
    some { l with opened := l.opened.erase address }
  else none

def outside : Call → Option SimpleLedger
  | .openAccount owner mint =>
      if (owner, mint) ∈ l.opened then none
      else some { l with
        opened := insert (owner, mint) l.opened
        amount := Function.update l.amount (owner, mint) 0 }
  | .issue owner mint n =>
      if (owner, mint) ∈ l.opened ∧ mint ∉ l.shareMints ∧ l.supply mint + n ≤ u64Max then
        some { l with
          amount := Function.update l.amount (owner, mint) (l.amount (owner, mint) + n)
          supply := Function.update l.supply mint (l.supply mint + n) }
      else none

end SimpleLedger

/-- The simple token program. -/
def TokenProgram.simple : TokenProgram where
  Ledger := SimpleLedger
  Address := Authority × Pubkey
  associated := fun owner mint => (owner, mint)
  account := SimpleLedger.account
  inUse := SimpleLedger.opened
  supply := SimpleLedger.supply
  isSupportedMint := fun _ _ => true
  isSupportedAccount := fun l address => address ∈ l.opened
  createMint := SimpleLedger.createMint
  transferChecked := SimpleLedger.transferChecked
  mintTo := fun l signer m dest n => l.mintTo signer dest m n
  burn := fun l signer m source n => l.burn signer source m n
  closeAccount := SimpleLedger.closeAccount
  Call := SimpleLedger.Call
  outside := SimpleLedger.outside

namespace SimpleLedger

variable {l l' : SimpleLedger} {a source dest address : Authority × Pubkey} {signer : Authority}
  {m : Pubkey} {n : ℕ} {call : Call}

theorem account_eq_some {acc : TokenAccount} :
    l.account a = some acc ↔ a ∈ l.opened ∧ acc = ⟨a.2, a.1, l.amount a⟩ := by
  unfold account
  split
  · next h => simp [h, eq_comm]
  · next h => simp [h]

theorem account_of (h : a ∈ l.opened) : l.account a = some ⟨a.2, a.1, l.amount a⟩ := if_pos h

/-- The accounts of a ledger with another amount at one of them. -/
theorem account_update (ha : a ∈ l.opened) (hopened : l'.opened = l.opened)
    (hamount : l'.amount = Function.update l.amount a n) (x : Authority × Pubkey) :
    l'.account x = if x = a then some ⟨a.2, a.1, n⟩ else l.account x := by
  unfold account
  rw [hopened, hamount]
  by_cases hx : x = a
  · rw [if_pos hx, hx, if_pos ha, Function.update_self]
  · rw [if_neg hx, Function.update_of_ne hx]

theorem transferChecked_spec (h : l.transferChecked signer source dest m n = some l') :
    source ∈ l.opened ∧ dest ∈ l.opened ∧ source.2 = m ∧ dest.2 = m ∧ source.1 = signer ∧
      n ≤ l.amount source ∧ ∀ x, l'.account x =
        if source = dest then l.account x
        else if x = source then some ⟨source.2, source.1, l.amount source - n⟩
        else if x = dest then some ⟨dest.2, dest.1, l.amount dest + n⟩
        else l.account x := by
  unfold transferChecked at h
  split at h
  · next hc =>
    obtain ⟨hs, hd, hsm, hdm, hsigner, hn⟩ := hc
    refine ⟨hs, hd, hsm, hdm, hsigner, hn, fun x => ?_⟩
    by_cases hself : source = dest
    · rw [if_pos hself] at h ⊢
      cases h
      rfl
    · rw [if_neg hself] at h ⊢
      cases h
      simp only [account]
      by_cases hx : x = source
      · rw [if_pos hx, hx, if_pos hs, Function.update_of_ne hself, Function.update_self]
      · rw [if_neg hx]
        by_cases hx' : x = dest
        · rw [if_pos hx', hx', if_pos hd, Function.update_self]
        · rw [if_neg hx', Function.update_of_ne hx', Function.update_of_ne hx]
  · cases h

theorem mintTo_spec (h : l.mintTo signer dest m n = some l') :
    dest ∈ l.opened ∧ dest.2 = m ∧ ∀ x, l'.account x =
      if x = dest then some ⟨dest.2, dest.1, l.amount dest + n⟩ else l.account x := by
  unfold mintTo at h
  split at h
  · next hc =>
    cases h
    exact ⟨hc.1, hc.2.1, account_update hc.1 rfl rfl⟩
  · cases h

theorem burn_spec (h : l.burn signer source m n = some l') :
    source ∈ l.opened ∧ source.2 = m ∧ source.1 = signer ∧ n ≤ l.amount source ∧
      ∀ x, l'.account x =
        if x = source then some ⟨source.2, source.1, l.amount source - n⟩ else l.account x := by
  unfold burn at h
  split at h
  · next hc =>
    cases h
    exact ⟨hc.1, hc.2.1, hc.2.2.1, hc.2.2.2.1, account_update hc.1 rfl rfl⟩
  · cases h

theorem closeAccount_spec (h : l.closeAccount signer address = some l') :
    address ∈ l.opened ∧ address.1 = signer ∧
      ∀ x, l'.account x = if x = address then none else l.account x := by
  unfold closeAccount at h
  split at h
  · next hc =>
    cases h
    refine ⟨hc.1, hc.2.1, fun x => ?_⟩
    simp only [account, Finset.mem_erase]
    by_cases hx : x = address
    · rw [if_pos hx, if_neg fun e => e.1 hx]
    · simp only [hx, ne_eq, not_false_eq_true, true_and, if_false]
  · cases h

theorem outside_spec (h : l.outside call = some l') (ha : a ∈ l.opened) :
    ∃ k, l'.account a = some ⟨a.2, a.1, l.amount a + k⟩ := by
  cases call with
  | openAccount owner mint =>
      simp only [outside] at h
      split at h
      · cases h
      · next hnew =>
        cases h
        have hne : a ≠ (owner, mint) := fun e => hnew (e ▸ ha)
        refine ⟨0, ?_⟩
        simp only [account]
        rw [if_pos (Finset.mem_insert_of_mem ha), Function.update_of_ne hne, Nat.add_zero]
  | issue owner mint n =>
      simp only [outside] at h
      split at h
      · next hc =>
        cases h
        by_cases hx : a = (owner, mint)
        · subst hx
          refine ⟨n, ?_⟩
          simp only [account]
          rw [if_pos ha, Function.update_self]
        · refine ⟨0, ?_⟩
          simp only [account]
          rw [if_pos ha, Function.update_of_ne hx, Nat.add_zero]
      · cases h

end SimpleLedger

open SimpleLedger in
/-- The assumptions on the token programs can be met. -/
theorem TokenProgram.simple_lawful : TokenProgram.simple.Lawful where
  inUse := fun _ _ _ h => (account_eq_some.mp h).1
  associated := fun _ _ _ _ _ h => by
    obtain ⟨-, rfl⟩ := account_eq_some.mp h
    exact ⟨rfl, rfl⟩
  createMint := fun {l l' m} h _ => by
    change l.createMint m = some l' at h
    unfold SimpleLedger.createMint at h
    split at h
    · cases h
    · cases h
      rfl
  transferChecked := fun h => by
    obtain ⟨hs, hd, hsm, hdm, hsigner, hn, hl'⟩ := transferChecked_spec h
    exact ⟨_, _, account_of hs, account_of hd, hsm, hdm, hn, fun _ => hsigner, hl'⟩
  mintTo := fun h => by
    obtain ⟨hd, hdm, hl'⟩ := mintTo_spec h
    exact ⟨_, account_of hd, hdm, hl'⟩
  burn := fun h => by
    obtain ⟨hs, hsm, hsigner, hn, hl'⟩ := burn_spec h
    exact ⟨_, account_of hs, hsm, hn, fun _ => hsigner, hl'⟩
  closeAccount := fun h => by
    obtain ⟨ha, hsigner, hl'⟩ := closeAccount_spec h
    exact ⟨_, account_of ha, fun _ => hsigner, hl'⟩
  outside := fun h _ _ hacc _ => by
    obtain ⟨ha, rfl⟩ := account_eq_some.mp hacc
    obtain ⟨k, hk⟩ := outside_spec h ha
    exact ⟨_, hk, rfl, rfl, Nat.le_add_right ..⟩

theorem TokenProgram.simple_countsSupply : TokenProgram.simple.CountsSupply where
  mintTo := fun {l l' signer m dest n} h => by
    change l.mintTo signer dest m n = some l' at h
    unfold SimpleLedger.mintTo at h
    split at h
    · next hc =>
      cases h
      exact ⟨rfl, hc.2.2.2.2⟩
    · cases h
  burn := fun {l l' signer m source n} h => by
    change l.burn signer source m n = some l' at h
    unfold SimpleLedger.burn at h
    split at h
    · next hc =>
      cases h
      exact ⟨hc.2.2.2.2, rfl⟩
    · cases h

end IndexDtf

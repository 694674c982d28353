import Mathlib.Algebra.BigOperators.Group.Finset.Piecewise
import Mathlib.Algebra.Order.BigOperators.Group.Finset
import IndexDtf.Shared.Basic

/-!
# IndexDtf.Token.Program

**The token programs**, which the folio program calls and which are not part of
the workspace. A `TokenProgram` is what the calls do to a ledger of token
accounts; `Lawful` states what the folio program relies on: an operation moves
exactly the amount it is asked for or fails, and tokens owned by a PDA of the
folio program leave it only when that PDA signs.

`held` is the balance of a mint over all the accounts of an owner. The lemmas
below say what each operation does to the balances of the folio PDAs.
-/

namespace IndexDtf

/-- Who can own token accounts and sign for them: the two kinds of PDA of the
folio program (a folio is named by its share mint), and everybody else. -/
inductive Authority
  | external (key : Pubkey)
  | folio (mint : Pubkey)
  | userPendingBasket (folio user : Pubkey)
  deriving DecidableEq, Repr

/-- Only the folio program signs for this authority. -/
def Authority.IsPda : Authority → Prop
  | .external _ => False
  | .folio _ => True
  | .userPendingBasket _ _ => True

/-- A token account. -/
structure TokenAccount where
  mint : Pubkey
  owner : Authority
  amount : ℕ
  deriving DecidableEq, Repr

/-- The token programs: a ledger and the operations on it. -/
structure TokenProgram where
  Ledger : Type
  Address : Type
  /-- `get_associated_token_address_with_program_id`. -/
  associated : Authority → Pubkey → Address
  account : Ledger → Address → Option TokenAccount
  /-- The addresses in use, of which there are finitely many. -/
  inUse : Ledger → Finset Address
  supply : Ledger → Pubkey → ℕ
  /-- `TokenUtil::is_supported_spl_token`, of a mint or of a token account. -/
  isSupportedMint : Ledger → Pubkey → Bool
  isSupportedAccount : Ledger → Address → Bool
  createMint : Ledger → Pubkey → Option Ledger
  transferChecked : Ledger → Authority → Address → Address → Pubkey → ℕ → Option Ledger
  mintTo : Ledger → Authority → Pubkey → Address → ℕ → Option Ledger
  burn : Ledger → Authority → Pubkey → Address → ℕ → Option Ledger
  closeAccount : Ledger → Authority → Address → Option Ledger
  /-- What a caller can have other programs do. -/
  Call : Type
  outside : Ledger → Call → Option Ledger
  [addressEq : DecidableEq Address]

namespace TokenProgram

instance (T : TokenProgram) : DecidableEq T.Address := T.addressEq

variable (T : TokenProgram)

/-- The amount an address has; zero without an account. -/
def amount (l : T.Ledger) (a : T.Address) : ℕ := ((T.account l a).map (·.amount)).getD 0

/-- What an account adds to the balance of an owner in a mint. -/
def share (p : Authority) (m : Pubkey) : Option TokenAccount → ℕ
  | some acc => if acc.owner = p ∧ acc.mint = m then acc.amount else 0
  | none => 0

/-- The balance of a mint over all the token accounts an authority owns. -/
def held (l : T.Ledger) (p : Authority) (m : Pubkey) : ℕ :=
  ∑ a ∈ T.inUse l, share p m (T.account l a)

/-- The documented behaviour of the token programs, on accounts nobody but their owners acts on.
A mint of Token-2022 may name a permanent delegate, and `token_util.rs` admits such mints: that
delegate is assumed not to act on the accounts of a PDA, in `transferChecked`, `burn` and `outside`.
It is a power of whoever issued the mint, not of the program or of a callback. -/
structure Lawful : Prop where
  inUse : ∀ l a acc, T.account l a = some acc → a ∈ T.inUse l
  associated : ∀ l p m acc, p.IsPda → T.account l (T.associated p m) = some acc →
    acc.owner = p ∧ acc.mint = m
  createMint : ∀ {l l' m}, T.createMint l m = some l' → ∀ a, T.account l' a = T.account l a
  /-- A transfer moves exactly `n`, between accounts of the mint, and the owner of
  the source signs if it is a PDA: PDAs appoint no delegates. -/
  transferChecked : ∀ {l l' signer source dest m n},
    T.transferChecked l signer source dest m n = some l' →
      ∃ s d, T.account l source = some s ∧ T.account l dest = some d ∧
        s.mint = m ∧ d.mint = m ∧ n ≤ s.amount ∧ (s.owner.IsPda → s.owner = signer) ∧
        ∀ a, T.account l' a =
          if source = dest then T.account l a
          else if a = source then some { s with amount := s.amount - n }
          else if a = dest then some { d with amount := d.amount + n }
          else T.account l a
  mintTo : ∀ {l l' signer m dest n}, T.mintTo l signer m dest n = some l' →
    ∃ d, T.account l dest = some d ∧ d.mint = m ∧
      ∀ a, T.account l' a =
        if a = dest then some { d with amount := d.amount + n } else T.account l a
  burn : ∀ {l l' signer m source n}, T.burn l signer m source n = some l' →
    ∃ s, T.account l source = some s ∧ s.mint = m ∧ n ≤ s.amount ∧
      (s.owner.IsPda → s.owner = signer) ∧
      ∀ a, T.account l' a =
        if a = source then some { s with amount := s.amount - n } else T.account l a
  closeAccount : ∀ {l l' signer address}, T.closeAccount l signer address = some l' →
    ∃ s, T.account l address = some s ∧ (s.owner.IsPda → s.owner = signer) ∧
      ∀ a, T.account l' a = if a = address then none else T.account l a
  /-- Nobody else takes from the accounts of a PDA, closes them or gives them away. -/
  outside : ∀ {l l' call}, T.outside l call = some l' →
    ∀ a acc, T.account l a = some acc → acc.owner.IsPda →
      ∃ acc', T.account l' a = some acc' ∧ acc'.owner = acc.owner ∧ acc'.mint = acc.mint ∧
        acc.amount ≤ acc'.amount

/-- The documented behaviour of the token programs on the supply of a mint: it fits `u64`, and
only minting and burning change it. -/
structure CountsSupply : Prop where
  mintTo : ∀ {l l' signer m dest n}, T.mintTo l signer m dest n = some l' →
    T.supply l' = Function.update (T.supply l) m (T.supply l m + n) ∧ T.supply l m + n ≤ u64Max
  burn : ∀ {l l' signer m source n}, T.burn l signer m source n = some l' →
    n ≤ T.supply l m ∧ T.supply l' = Function.update (T.supply l) m (T.supply l m - n)

variable {T} {l l' : T.Ledger} {p signer : Authority} {m m' : Pubkey} {n : ℕ}

/-! ### Balances as sums over any large enough set of addresses -/

theorem Lawful.held_eq (hT : T.Lawful) {S : Finset T.Address} (hS : T.inUse l ⊆ S) :
    T.held l p m = ∑ a ∈ S, share p m (T.account l a) := by
  refine Finset.sum_subset hS fun a _ ha => ?_
  cases hacc : T.account l a with
  | none => rfl
  | some acc => exact absurd (hT.inUse l a acc hacc) ha

/-- Balances are compared address by address. -/
theorem Lawful.held_mono (hT : T.Lawful)
    (h : ∀ a, share p m (T.account l a) ≤ share p m (T.account l' a)) :
    T.held l p m ≤ T.held l' p m := by
  have hleft : T.inUse l ⊆ T.inUse l ∪ T.inUse l' := Finset.subset_union_left
  have hright : T.inUse l' ⊆ T.inUse l ∪ T.inUse l' := Finset.subset_union_right
  rw [hT.held_eq hleft, hT.held_eq hright]
  exact Finset.sum_le_sum fun a _ => h a

/-- The same, up to what one address gains and loses. -/
theorem Lawful.held_le (hT : T.Lawful) (a₀ : T.Address) (gain loss : ℕ)
    (h : ∀ a, share p m (T.account l a) + (if a = a₀ then gain else 0)
      ≤ share p m (T.account l' a) + (if a = a₀ then loss else 0)) :
    T.held l p m + gain ≤ T.held l' p m + loss := by
  -- one set of addresses for both ledgers, with `a₀` in it
  let S := insert a₀ (T.inUse l ∪ T.inUse l')
  have hS : T.inUse l ∪ T.inUse l' ⊆ S := Finset.subset_insert ..
  have hsum (n : ℕ) : ∑ a ∈ S, (if a = a₀ then n else 0) = n := by
    rw [Finset.sum_ite_eq', if_pos (Finset.mem_insert_self ..)]
  rw [hT.held_eq (Finset.subset_union_left.trans hS),
    hT.held_eq (Finset.subset_union_right.trans hS)]
  calc _ = ∑ a ∈ S, (share p m (T.account l a) + if a = a₀ then gain else 0) := by
        rw [Finset.sum_add_distrib, hsum]
    _ ≤ ∑ a ∈ S, (share p m (T.account l' a) + if a = a₀ then loss else 0) :=
        Finset.sum_le_sum fun a _ => h a
    _ = _ := by rw [Finset.sum_add_distrib, hsum]

/-! ### What the operations do to the balances of a PDA -/

section Pda

variable {source dest address : T.Address} {call : T.Call}

theorem share_add (acc : TokenAccount) :
    share p m (some acc) ≤ share p m (some { acc with amount := acc.amount + n }) := by
  simp only [share]
  split
  · exact Nat.le_add_right ..
  · exact le_rfl

theorem share_of_owner_ne {acc : TokenAccount} (h : acc.owner ≠ p) : share p m (some acc) = 0 :=
  if_neg fun e => h e.1

theorem share_of_owner (acc : TokenAccount) (howner : acc.owner = p) (hmint : acc.mint = m) :
    share p m (some acc) = acc.amount :=
  if_pos ⟨howner, hmint⟩

/-- A transfer takes no more than its amount, and only of its mint. -/
theorem Lawful.transfer_out (hT : T.Lawful)
    (h : T.transferChecked l signer source dest m n = some l') :
    T.held l p m' ≤ T.held l' p m' + (if m' = m then n else 0) := by
  obtain ⟨s, d, hs, hd, hsm, -, hn, -, hl'⟩ := hT.transferChecked h
  refine hT.held_le source 0 _ fun a => ?_
  rw [ite_self, Nat.add_zero, hl']
  by_cases hself : source = dest
  · rw [if_pos hself]
    exact Nat.le_add_right ..
  · rw [if_neg hself]
    by_cases ha : a = source
    · rw [if_pos ha, if_pos ha, ha, hs]
      simp only [share, hsm]
      by_cases hm : m = m'
      · rw [if_pos hm.symm]
        split <;> omega
      · rw [if_neg fun e => hm e.2]
        exact Nat.zero_le _
    · rw [if_neg ha, if_neg ha, Nat.add_zero]
      by_cases ha' : a = dest
      · rw [if_pos ha', ha', hd]
        exact share_add d
      · rw [if_neg ha']

/-- A transfer somebody else signs takes nothing from a PDA. -/
theorem Lawful.transfer_keeps (hT : T.Lawful) (hp : p.IsPda) (hne : signer ≠ p)
    (h : T.transferChecked l signer source dest m n = some l') :
    T.held l p m' ≤ T.held l' p m' := by
  obtain ⟨s, d, hs, hd, -, -, -, howner, hl'⟩ := hT.transferChecked h
  refine hT.held_mono fun a => ?_
  rw [hl']
  by_cases hself : source = dest
  · rw [if_pos hself]
  · rw [if_neg hself]
    by_cases ha : a = source
    · have hsp : s.owner ≠ p := fun e => hne ((howner (e ▸ hp)).symm.trans e)
      rw [ha, hs, share_of_owner_ne hsp]
      exact Nat.zero_le _
    · rw [if_neg ha]
      by_cases ha' : a = dest
      · rw [if_pos ha', ha', hd]
        exact share_add d
      · rw [if_neg ha']

/-- Into the associated account of a PDA it brings its amount. -/
theorem Lawful.transfer_in (hT : T.Lawful) (hp : p.IsPda) (hne : signer ≠ p)
    (h : T.transferChecked l signer source (T.associated p m) m n = some l') :
    T.held l p m + n ≤ T.held l' p m := by
  obtain ⟨s, d, hs, hd, -, -, -, howner, hl'⟩ := hT.transferChecked h
  have hsp : s.owner ≠ p := fun e => hne ((howner (e ▸ hp)).symm.trans e)
  obtain ⟨hdp, hdm⟩ := hT.associated _ _ _ _ hp hd
  have hself : source ≠ T.associated p m := by
    intro e
    rw [e, hd] at hs
    exact hsp (Option.some.inj hs ▸ hdp)
  refine hT.held_le (T.associated p m) n 0 fun a => ?_
  rw [ite_self, Nat.add_zero, hl', if_neg hself]
  by_cases ha : a = source
  · rw [if_neg (ha ▸ hself), ha, hs, share_of_owner_ne hsp]
    exact Nat.zero_le _
  · rw [if_neg ha]
    by_cases ha' : a = T.associated p m
    · rw [if_pos ha', if_pos ha', ha', hd, share_of_owner d hdp hdm]
      exact le_of_eq (share_of_owner
        { d with amount := d.amount + n } hdp hdm).symm
    · rw [if_neg ha', if_neg ha', Nat.add_zero]

theorem Lawful.createMint_keeps (hT : T.Lawful) (h : T.createMint l m = some l') :
    T.held l p m' ≤ T.held l' p m' :=
  hT.held_mono fun a => by rw [hT.createMint h]

theorem Lawful.mintTo_keeps (hT : T.Lawful) (h : T.mintTo l signer m dest n = some l') :
    T.held l p m' ≤ T.held l' p m' := by
  obtain ⟨d, hd, -, hl'⟩ := hT.mintTo h
  refine hT.held_mono fun a => ?_
  rw [hl']
  by_cases ha : a = dest
  · rw [if_pos ha, ha, hd]
    exact share_add d
  · rw [if_neg ha]

theorem Lawful.burn_keeps (hT : T.Lawful) (hp : p.IsPda) (hne : signer ≠ p)
    (h : T.burn l signer m source n = some l') : T.held l p m' ≤ T.held l' p m' := by
  obtain ⟨s, hs, -, -, howner, hl'⟩ := hT.burn h
  refine hT.held_mono fun a => ?_
  rw [hl']
  by_cases ha : a = source
  · have hsp : s.owner ≠ p := fun e => hne ((howner (e ▸ hp)).symm.trans e)
    rw [ha, hs, share_of_owner_ne hsp]
    exact Nat.zero_le _
  · rw [if_neg ha]

theorem Lawful.closeAccount_keeps (hT : T.Lawful) (hp : p.IsPda) (hne : signer ≠ p)
    (h : T.closeAccount l signer address = some l') : T.held l p m' ≤ T.held l' p m' := by
  obtain ⟨s, hs, howner, hl'⟩ := hT.closeAccount h
  refine hT.held_mono fun a => ?_
  rw [hl']
  by_cases ha : a = address
  · have hsp : s.owner ≠ p := fun e => hne ((howner (e ▸ hp)).symm.trans e)
    rw [ha, hs, share_of_owner_ne hsp]
    exact Nat.zero_le _
  · rw [if_neg ha]

/-- What others do never lowers the part of an address in a PDA's balance. -/
theorem Lawful.outside_share (hT : T.Lawful) (hp : p.IsPda) (h : T.outside l call = some l')
    (a : T.Address) : share p m' (T.account l a) ≤ share p m' (T.account l' a) := by
  cases hacc : T.account l a with
  | none => exact Nat.zero_le _
  | some acc =>
      by_cases howner : acc.owner = p
      · obtain ⟨acc', hacc', howner', hmint', hle⟩ := hT.outside h a acc hacc (howner ▸ hp)
        rw [hacc', share, share, howner', hmint']
        split
        · exact hle
        · exact le_rfl
      · rw [share_of_owner_ne howner]
        exact Nat.zero_le _

theorem Lawful.outside_keeps (hT : T.Lawful) (hp : p.IsPda) (h : T.outside l call = some l') :
    T.held l p m' ≤ T.held l' p m' :=
  hT.held_mono fun a => hT.outside_share hp h a

/-- What arrives in the associated account of a PDA adds to its balance. -/
theorem Lawful.outside_in (hT : T.Lawful) (hp : p.IsPda) (h : T.outside l call = some l')
    (hn : T.amount l (T.associated p m) + n ≤ T.amount l' (T.associated p m)) :
    T.held l p m + n ≤ T.held l' p m := by
  have hamount (x : T.Ledger) :
      share p m (T.account x (T.associated p m)) = T.amount x (T.associated p m) := by
    cases hacc : T.account x (T.associated p m) with
    | none => simp only [amount, hacc, share, Option.map_none, Option.getD_none]
    | some acc =>
        obtain ⟨howner, hmint⟩ := hT.associated _ _ _ _ hp hacc
        rw [share_of_owner acc howner hmint]
        simp only [amount, hacc, Option.map_some, Option.getD_some]
  refine hT.held_le (T.associated p m) n 0 fun a => ?_
  rw [ite_self, Nat.add_zero]
  by_cases ha : a = T.associated p m
  · rw [if_pos ha, ha, hamount, hamount]
    exact hn
  · rw [if_neg ha, Nat.add_zero]
    exact hT.outside_share hp h a

theorem amount_of {a : T.Address} {acc : TokenAccount} (h : T.account l a = some acc) :
    T.amount l a = acc.amount := by
  rw [amount, h, Option.map_some, Option.getD_some]

/-- What a PDA sends from its associated account to somebody else is all that leaves its
associated accounts. -/
theorem Lawful.associated_out (hT : T.Lawful) (hp : p.IsPda) {acc : TokenAccount}
    (h : T.transferChecked l signer (T.associated p m) dest m n = some l')
    (hdest : T.account l' dest = some acc) (howner : acc.owner ≠ p) (m' : Pubkey) :
    T.amount l' (T.associated p m') + (if m' = m then n else 0)
      = T.amount l (T.associated p m') := by
  obtain ⟨s, d, hs, hd, hsm, hdm, hn, -, hl'⟩ := hT.transferChecked h
  have hso := hT.associated _ _ _ _ hp hs
  have hne : T.associated p m ≠ dest := by
    intro heq
    rw [hl', if_pos heq, ← heq, hs] at hdest
    cases hdest
    exact howner hso.1
  simp only [if_neg hne] at hl'
  by_cases hm : m' = m
  · subst hm
    have hl := hl' (T.associated p m')
    rw [if_pos rfl] at hl
    rw [if_pos rfl, amount_of hl, amount_of hs]
    exact Nat.sub_add_cancel hn
  · -- the account of another mint is neither the source nor the destination
    have hother (a : T.Address) (acc : TokenAccount) (ha : T.account l a = some acc)
        (hmint : acc.mint = m) : T.associated p m' ≠ a := by
      rintro rfl
      exact hm ((hT.associated _ _ _ _ hp ha).2.symm.trans hmint)
    rw [if_neg hm, Nat.add_zero, amount, amount, hl', if_neg (hother _ s hs hsm),
      if_neg (hother _ d hd hdm)]

end Pda

end TokenProgram

end IndexDtf

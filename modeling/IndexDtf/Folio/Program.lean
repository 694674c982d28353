import IndexDtf.Folio.Instructions.Auction
import IndexDtf.Folio.Instructions.Owner
import IndexDtf.Lib.Transition

/-!
# IndexDtf.Folio.Program

**The folio program as a machine.** Its states are the accounts of all folios, its
inputs the instructions of anybody in any order, with what happens outside in between:
time passes, and other programs are called. An instruction that fails changes nothing.
-/

namespace IndexDtf

open Lib

/-- The inputs of the machine. -/
inductive Instruction (T : TokenProgram)
  | user (i : UserInstruction T)
  | owner (i : OwnerInstruction T)
  | crank (i : CrankInstruction T)
  | admin (i : AdminInstruction)
  | auction (i : AuctionInstruction T)
  /-- The clock moves on. -/
  | elapse (seconds : ℕ)
  /-- Somebody calls another program. -/
  | outside (call : T.Call)

namespace World

variable {T : TokenProgram}

/-- An instruction that leaves the accounts of the auctions alone. -/
def onBooks (w : World T) (f : Books T → Result (Books T)) : Result (World T) := do
  .ok { w with books := ← f w.books }

/-- One input. -/
def step (w : World T) : Instruction T → Result (World T)
  | .user i => w.onBooks (·.user i)
  | .owner i => w.onBooks (·.owner i)
  | .crank i => w.onBooks (·.crank i)
  | .admin i => w.onBooks (·.administer i)
  | .auction i => w.auction i
  | .elapse seconds => w.onBooks fun b => .ok { b with now := b.now + seconds }
  | .outside call => w.onBooks fun b => do
      .ok { b with ledger := ← Books.invoke (T.outside b.ledger call) }

/-- The worlds some run from before the first folio leads to. -/
def Reachable (w : World T) : Prop := Lib.Reachable World.step World.Fresh w

/-- The world before the first folio, with no fees configured. -/
def genesis (ledger : T.Ledger) (now : ℕ) : World T where
  books := {
    now, ledger, programRegistrar := none, daoFeeConfig := none
    folioFeeConfig := fun _ => none, folio := fun _ => none, actor := fun _ => none
    folioBasket := fun _ => none, userPendingBasket := fun _ => none
    feeRecipients := fun _ => none, feeDistribution := fun _ => none, createdAt := fun _ => 0 }
  rebalancing := ⟨fun _ => none, fun _ => none, fun _ => none⟩

theorem genesis_fresh (ledger : T.Ledger) (now : ℕ) : (genesis ledger now).Fresh where
  folio := fun _ => rfl
  actor := fun _ => rfl
  folioBasket := fun _ => rfl
  userPendingBasket := fun _ => rfl
  feeRecipients := fun _ => rfl
  feeDistribution := fun _ => rfl
  rebalance := fun _ => rfl
  auction := fun _ => rfl
  auctionEnds := fun _ => rfl

theorem reachable_genesis (ledger : T.Ledger) (now : ℕ) (inputs : List (Instruction T)) :
    (run step (genesis ledger now) inputs).Reachable :=
  ⟨_, inputs, genesis_fresh ledger now, rfl⟩

theorem onBooks_eq_ok {w w' : World T} {f : Books T → Result (Books T)} :
    w.onBooks f = .ok w' ↔ f w.books = .ok w'.books ∧ w'.rebalancing = w.rebalancing := by
  simp only [onBooks, bind_eq_ok, Except.ok.injEq]
  constructor
  · rintro ⟨b, hb, rfl⟩
    exact ⟨hb, rfl⟩
  · rintro ⟨hb, hr⟩
    exact ⟨w'.books, hb, by rw [← hr]⟩

/-- The successful inputs that leave the accounts of the auctions alone. -/
inductive BooksStep (b b' : Books T) : Prop
  | user (i : UserInstruction T) (h : b.user i = .ok b')
  | owner (i : OwnerInstruction T) (h : b.owner i = .ok b')
  | crank (i : CrankInstruction T) (h : b.crank i = .ok b')
  | admin (i : AdminInstruction) (h : b.administer i = .ok b')
  | elapse (seconds : ℕ) (h : b' = { b with now := b.now + seconds })
  | outside (call : T.Call) (ledger : T.Ledger) (hcall : T.outside b.ledger call = some ledger)
      (h : b' = { b with ledger })

/-- What a successful input is. -/
theorem step_cases {w w' : World T} {i : Instruction T} (h : w.step i = .ok w') :
    (∃ j, i = .auction j ∧ w.auction j = .ok w') ∨
      (BooksStep w.books w'.books ∧ w'.rebalancing = w.rebalancing) := by
  cases i with
  | auction i => exact .inl ⟨i, rfl, h⟩
  | user i =>
      simp only [step, onBooks_eq_ok] at h
      exact .inr ⟨.user i h.1, h.2⟩
  | owner i =>
      simp only [step, onBooks_eq_ok] at h
      exact .inr ⟨.owner i h.1, h.2⟩
  | crank i =>
      simp only [step, onBooks_eq_ok] at h
      exact .inr ⟨.crank i h.1, h.2⟩
  | admin i =>
      simp only [step, onBooks_eq_ok] at h
      exact .inr ⟨.admin i h.1, h.2⟩
  | elapse seconds =>
      simp only [step, onBooks_eq_ok, Except.ok.injEq] at h
      exact .inr ⟨.elapse seconds h.1.symm, h.2⟩
  | outside call =>
      simp only [step, onBooks_eq_ok, bind_eq_ok, Books.invoke_eq_ok, Except.ok.injEq] at h
      obtain ⟨⟨ledger, hcall, hb⟩, hr⟩ := h
      exact .inr ⟨.outside call ledger hcall hb.symm, hr⟩

end World

end IndexDtf

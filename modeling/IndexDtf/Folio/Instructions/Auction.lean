import IndexDtf.Folio.World

/-!
# IndexDtf.Folio.Instructions.Auction

The instructions on rebalances and auctions (`instructions/auction`). They work on
both groups of accounts: `bid` moves tokens, and most of the others poke the folio.
-/

namespace IndexDtf

open Lib Decimal

/-- The callback of a bid, by what the remaining accounts name. -/
inductive Callback (T : TokenProgram)
  /-- No accounts: nothing is called. -/
  | nothing
  /-- The folio program, as the program to call or among its accounts. -/
  | folioProgram
  | call (call : T.Call)

/-- The instructions on auctions. The folio is the first argument, the signer, if its
key matters, the second. -/
inductive AuctionInstruction (T : TokenProgram)
  | startRebalance (f manager : Pubkey) (auctionLauncherWindow ttl : ℕ) (mints : List Pubkey)
      (pricesAndLimits : List RebalancePriceAndLimits) (allRebalanceDetailsAdded : Bool)
  | addRebalanceDetails (f manager : Pubkey) (mints : List Pubkey)
      (pricesAndLimits : List RebalancePriceAndLimits) (allRebalanceDetailsAdded : Bool)
  | openAuction (f launcher sellMint buyMint : Pubkey) (config : OpenAuctionConfig)
  | openAuctionPermissionless (f sellMint buyMint : Pubkey)
  /-- `auction` is the account the bidder passes, which need not belong to the folio. -/
  | bid (f bidder : Pubkey) (auction : AuctionKey) (rawSellAmount rawMaxBuyAmount : ℕ)
      (callback : Option (Callback T))
  | closeAuction (f actor : Pubkey) (auction : AuctionKey)

namespace World

open Books

variable {T : TokenProgram}

/-- Every mint is a supported token. -/
def checkSupported (ledger : T.Ledger) (mints : List Pubkey) : Result Unit :=
  checkCondition (∀ mint ∈ mints, mint ≠ Pubkey.default ∧ T.isSupportedMint ledger mint = true)
    .UnsupportedSPLToken

/-- `start_rebalance`. -/
def startRebalance (w : World T) (f manager : Pubkey) (auctionLauncherWindow ttl : ℕ)
    (mints : List Pubkey) (pricesAndLimits : List RebalancePriceAndLimits)
    (allRebalanceDetailsAdded : Bool) : Result (World T) := do
  let ⟨b, r⟩ := w
  let folio ← b.validateFolioFor f manager [.RebalanceManager] [.Initialized]
  checkSupported b.ledger mints
  let folio ← b.poked f folio
  let rebalance ← ((r.rebalance f).getD Rebalance.init).startRebalance b.now
    auctionLauncherWindow ttl mints pricesAndLimits allRebalanceDetailsAdded
  .ok ⟨b.setFolio f folio, { r with rebalance := Function.update r.rebalance f (some rebalance) }⟩

/-- `add_rebalance_details`. -/
def addRebalanceDetails (w : World T) (f manager : Pubkey) (mints : List Pubkey)
    (pricesAndLimits : List RebalancePriceAndLimits) (allRebalanceDetailsAdded : Bool) :
    Result (World T) := do
  let ⟨b, r⟩ := w
  let rebalance ← load (r.rebalance f)
  let _ ← b.validateFolioFor f manager [.RebalanceManager] [.Initialized]
  checkSupported b.ledger mints
  let rebalance ← rebalance.addRebalanceDetails mints pricesAndLimits allRebalanceDetailsAdded
  .ok ⟨b, { r with rebalance := Function.update r.rebalance f (some rebalance) }⟩

/-- What the two handlers that open an auction share, once the folio is validated. The
new auction's account must not exist, that of the ends of the pair is created if needed. -/
def openFor (w : World T) (f : Pubkey) (folio : Folio) (sellMint buyMint : Pubkey)
    (auctionBuffer : ℕ) (config : Option OpenAuctionConfig) (isPermissionless : Bool) :
    Result (World T) := do
  let ⟨b, r⟩ := w
  let rebalance ← load (r.rebalance f)
  let basket ← load (b.folioBasket f)
  let folio ← b.poked f folio
  let endsKey : AuctionEndsKey :=
    ⟨f, rebalance.nonce, AuctionEnds.keysPairInOrder sellMint buyMint⟩
  let ends := ((r.auctionEnds endsKey).getD AuctionEnds.blank).processInitIfNeeded
    sellMint buyMint rebalance.nonce
  let id ← rebalance.getNextAuctionId
  let key : AuctionKey := ⟨f, rebalance.nonce, id⟩
  guardOr .account (r.auction key = none)
  let (auction, rebalance, ends) ← Auction.openAuction folio f basket ends (T.supply b.ledger f)
    rebalance sellMint buyMint b.now auctionBuffer config isPermissionless
  .ok ⟨b.setFolio f folio, {
    rebalance := Function.update r.rebalance f (some rebalance)
    auction := Function.update r.auction key (some auction)
    auctionEnds := Function.update r.auctionEnds endsKey (some ends) }⟩

/-- `open_auction`. -/
def openAuction (w : World T) (f launcher sellMint buyMint : Pubkey)
    (config : OpenAuctionConfig) : Result (World T) := do
  let folio ← w.books.validateFolioFor f launcher [.AuctionLauncher] [.Initialized]
  w.openFor f folio sellMint buyMint 0 (some config) false

/-- `open_auction_permissionless`. -/
def openAuctionPermissionless (w : World T) (f sellMint buyMint : Pubkey) :
    Result (World T) := do
  let folio ← w.books.validateFolio f [.Initialized]
  w.openFor f folio sellMint buyMint restrictedAuctionBuffer none true

/-- The seeds of the `AuctionEnds` account that `validate_auction_ends` expects: those of
the folio it is given, and of the auction's nonce and mints. -/
def endsKeyOf (f : Pubkey) (auction : Auction) : AuctionEndsKey :=
  ⟨f, auction.nonce, AuctionEnds.keysPairInOrder auction.sellMint auction.buyMint⟩

/-- `Bid::validate`, after the checks that leave no choice of accounts. Nothing here says
that the auction is one of the folio. -/
def validateBid (w : World T) (f bidder : Pubkey) (auction : Auction) :
    Result (Folio × Rebalance × AuctionEnds) := do
  let folio ← w.books.validateFolio f [.Initialized]
  checkCondition (T.isSupportedAccount w.books.ledger
    (T.associated (.external bidder) auction.buyMint) = true) .UnsupportedSPLToken
  let ends ← load (w.rebalancing.auctionEnds (endsKeyOf f auction))
  let rebalance ← load (w.rebalancing.rebalance f)
  checkCondition (rebalance.nonce = ends.rebalanceNonce) .InvalidRebalanceNonceAuctionEnded
  checkCondition (rebalance.nonce = auction.nonce) .InvalidRebalanceNonceAuctionEnded
  checkCondition (auction.tryGetStatus w.books.now = some .Open) .AuctionNotOngoing
  .ok (folio, rebalance, ends)

/-- The basket without what is sold, and the presence of the sell token in it. -/
def sellFromBasket (basket : FolioBasket) (auction : Auction) (rawSellAmount : ℕ)
    (supply : Decimal) : Result (FolioBasket × ℕ) := do
  let basket ← basket.removeTokensFromBasket [⟨auction.sellMint, rawSellAmount⟩]
  let sellBalance ← basket.getTokenAmountInFolioBasket auction.sellMint
  let basket ← if sellBalance = 0 then basket.removeTokenMintFromBasket auction.sellMint
    else .ok basket
  let presence ← basket.getTokenPresencePerShareInBasket auction.sellMint supply
  checkCondition (auction.sellLimit ≤ presence) .BidInvariantViolated
  .ok (basket, presence)

/-- The payment of a bid. With a callback the folio's account must have gained it. -/
def collectPayment (ledger : T.Ledger) (f bidder buyMint : Pubkey) (rawBoughtAmount : ℕ) :
    Option (Callback T) → Result T.Ledger
  | none =>
      invoke (T.transferChecked ledger (.external bidder)
        (T.associated (.external bidder) buyMint) (T.associated (.folio f) buyMint) buyMint
        rawBoughtAmount)
  | some callback => do
      let before := T.amount ledger (T.associated (.folio f) buyMint)
      let ledger ← match callback with
        | .nothing => .ok ledger
        | .folioProgram => .error (.code .InvalidCallbackProgram)
        | .call call => invoke (T.outside ledger call)
      let gained ← checkedSub (T.amount ledger (T.associated (.folio f) buyMint)) before
      checkCondition (rawBoughtAmount ≤ gained) .InsufficientBid
      .ok ledger

/-- The auction ends now if a limit is reached: it and the ends of the pair are set to the
second before. -/
def endAtLimits (now : ℕ) (auction : Auction) (ends : AuctionEnds)
    (sellPresence buyPresence : ℕ) : Result (Auction × AuctionEnds) :=
  if sellPresence = auction.sellLimit ∨ auction.buyLimit ≤ buyPresence then do
    let before ← subPlain now 1
    .ok ({ auction with end_ := before }, { ends with endTime := before })
  else .ok (auction, ends)

/-- `bid`. -/
def bid (w : World T) (f bidder : Pubkey) (key : AuctionKey)
    (rawSellAmount rawMaxBuyAmount : ℕ) (callback : Option (Callback T)) :
    Result (World T) := do
  let ⟨b, r⟩ := w
  let auction ← load (r.auction key)
  let basket ← load (b.folioBasket f)
  let (folio, _, ends) ← w.validateBid f bidder auction
  let endsKey := endsKeyOf f auction
  let folio ← b.poked f folio
  let (rawBoughtAmount, supply) ← auction.getBid folio basket (T.supply b.ledger f) b.now
    rawSellAmount rawMaxBuyAmount
  let (basket, sellPresence) ← sellFromBasket basket auction rawSellAmount supply
  let ledger ← invoke (T.transferChecked b.ledger (.folio f)
    (T.associated (.folio f) auction.sellMint) (T.associated (.external bidder) auction.sellMint)
    auction.sellMint rawSellAmount)
  let ledger ← collectPayment ledger f bidder auction.buyMint rawBoughtAmount callback
  let basket ← basket.addTokensToBasket [⟨auction.buyMint, rawBoughtAmount⟩]
  let buyPresence ← basket.getTokenPresencePerShareInBasket auction.buyMint supply
  let (auction, ends) ← endAtLimits b.now auction ends sellPresence buyPresence
  .ok ⟨{ b.setFolio f folio with
      ledger, folioBasket := Function.update b.folioBasket f (some basket) },
    { r with
      auction := Function.update r.auction key (some auction)
      auctionEnds := Function.update r.auctionEnds endsKey (some ends) }⟩

/-- `close_auction`. `validate_auction` holds the auction to be one of the folio. -/
def closeAuction (w : World T) (f actor : Pubkey) (key : AuctionKey) : Result (World T) := do
  let ⟨b, r⟩ := w
  let auction ← load (r.auction key)
  let _ ← b.validateFolioFor f actor [.RebalanceManager, .AuctionLauncher, .Owner]
    [.Initialized, .Initializing]
  checkCondition (key = ⟨f, auction.nonce, auction.id⟩) .InvalidPda
  let ends ← load (r.auctionEnds (endsKeyOf f auction))
  if b.now < auction.end_ then do
    let end_ ← checkedSub b.now 1
    .ok ⟨b, { r with
      auction := Function.update r.auction key (some { auction with end_ })
      auctionEnds :=
        Function.update r.auctionEnds (endsKeyOf f auction) (some { ends with endTime := end_ }) }⟩
  else .ok w

/-- An instruction on auctions. -/
def auction (w : World T) : AuctionInstruction T → Result (World T)
  | .startRebalance f manager auctionLauncherWindow ttl mints pricesAndLimits added =>
      w.startRebalance f manager auctionLauncherWindow ttl mints pricesAndLimits added
  | .addRebalanceDetails f manager mints pricesAndLimits added =>
      w.addRebalanceDetails f manager mints pricesAndLimits added
  | .openAuction f launcher sellMint buyMint config =>
      w.openAuction f launcher sellMint buyMint config
  | .openAuctionPermissionless f sellMint buyMint => w.openAuctionPermissionless f sellMint buyMint
  | .bid f bidder auction rawSellAmount rawMaxBuyAmount callback =>
      w.bid f bidder auction rawSellAmount rawMaxBuyAmount callback
  | .closeAuction f actor auction => w.closeAuction f actor auction

end World

end IndexDtf

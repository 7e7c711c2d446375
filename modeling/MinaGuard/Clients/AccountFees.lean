import MinaGuard.Clients.ReceiverRows

/-!
# Accounts that a transfer creates

An execution pays the creation of each receiver's account.  The offline CLI, the
worker and the UI count these accounts, each in its own way.
-/

namespace MinaGuard

/-- `isEmpty`; no curve point has the abscissa zero. -/
def PublicKey.isEmpty (k : PublicKey) : Bool := k.x = 0

/-- `typeof value === 'object'`, for a value that is not null. -/
def JsValue.isObject : JsValue → Bool
  | array _ => true
  | object _ => true
  | _ => false

section

variable {E : Env} (B : Base58 E)

def countNewReceiverAccounts (receivers : List Receiver) (accountExists : String → Bool) : ℕ :=
  receivers.foldl (fun count r ↦
    if r.address.isEmpty then count
    else if accountExists (B.toBase58 r.address) then count
    else count + 1) 0

/-- A missing or false flag means that the account is new. -/
def countExecuteNewAccounts (bundle : JsValue) : Except String ℕ := do
  let proposal := bundle.get "proposal"
  let txType ← requireTxType (proposal.get "txType")
  if txType ≠ .transfer then pure 0
  else
    let flags := bundle.get "receiverAccountExists"
    let receivers ← buildTransferReceivers B ((proposal.get "receivers").orElse (.array []))
    pure (countNewReceiverAccounts B receivers.toList fun addr ↦
      flags.isObject && (flags.get addr).strictEq (.boolean true))

def canonicalRecipientAddresses (receivers : List JsValue) : List JsValue :=
  ((receivers.take maxReceivers).map fun receiver ↦ receiver.get "address").filter
    fun address ↦ address.truthy && !address.strictEq (.string B.emptyKey)

/-- `receiverAccountExists[address] === true`. -/
def recipientFlag (receiverAccountExists address : JsValue) : Bool :=
  match address.isString? with
  | some key => (receiverAccountExists.get key).strictEq (.boolean true)
  | none => false

def countNewRecipientSlotsFromSnapshot (receivers : List JsValue)
    (receiverAccountExists : JsValue) : ℕ :=
  ((canonicalRecipientAddresses B receivers).filter fun address ↦
    !recipientFlag receiverAccountExists address).length

end

/-- What `fetchAccount` reports: whether there is an account, or an error and
its status code. -/
structure DeployTargetFetch where
  account : Bool
  error : Option (Option ℕ)

/-- Only a missing account means no; any other error is refused. -/
def receiverExists (fetched : DeployTargetFetch) : Except String Bool :=
  match fetched.error with
  | some statusCode =>
      if statusCode = some 404 then .ok false
      else .error "Could not check a receiver address"
  | none => .ok fetched.account

/-- `newAccountCount`, for the receivers of the rebuilt proposal. -/
def newAccountCount (txType : TxTypeName) (receivers : List Receiver)
    (fetchAccount : PublicKey → DeployTargetFetch) : Except String ℕ :=
  if txType = .transfer ∨ txType = .allocateChild then
    receivers.foldlM (fun count r ↦
      if r.address.isEmpty then pure count
      else do
        let found ← receiverExists (fetchAccount r.address)
        if ¬found ∧ txType = .allocateChild then
          throw "Allocation recipients must be initialized children of this vault"
        else pure (if found then count else count + 1)) 0
  else pure 0

/-- The accounts a transaction creates: those it updates that are not there. -/
def createdAccounts (accounts : PublicKey → Bool) (F : Forest) : List PublicKey :=
  ((F.self.publicKey :: F.children.map ChildUpdate.publicKey).filter fun k ↦
    !accounts k).dedup

/-- The receivers without an account, one entry for each slot. -/
def newReceivers (accounts : PublicKey → Bool) (p : TransactionProposal) : List PublicKey :=
  (p.receivers.toList.map Receiver.address).filter fun k ↦
    k ≠ PublicKey.empty && !accounts k

end MinaGuard

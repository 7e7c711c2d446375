import MinaGuard.Contract.Data
import MinaGuard.Foundations.Check

/-!
# Account updates and the circuits that produce them

A method is proved against the account states its prover claims.  What it
yields is a forest: the account update of the guard itself, with every state
value it relied on as a precondition, and the child updates it attached, which
carry preconditions on other accounts and credits but never write state.  The
ledger is the one to compare the preconditions with the real states.
-/

namespace MinaGuard

open Foundations

/-- The `@state` fields of a guard. -/
structure GuardState where
  ownersCommitment : Fp
  threshold : Fp
  numOwners : Fp
  nonce : Fp
  voteNullifierRoot : Fp
  approvalRoot : Fp
  configNonce : Fp
  parent : PublicKey
  parentNonce : Fp
  childExecutionRoot : Fp
  childMultiSigEnabled : Fp
  reservedConfigHash : Fp
deriving DecidableEq

/-- The state of an account nothing has been written to. -/
def GuardState.zero : GuardState where
  ownersCommitment := 0
  threshold := 0
  numOwners := 0
  nonce := 0
  voteNullifierRoot := 0
  approvalRoot := 0
  configNonce := 0
  parent := PublicKey.empty
  parentNonce := 0
  childExecutionRoot := 0
  childMultiSigEnabled := 0
  reservedConfigHash := 0

/-- A value for one state field, required of an account or written to it. -/
inductive StateValue where
  | ownersCommitment (v : Fp)
  | threshold (v : Fp)
  | numOwners (v : Fp)
  | nonce (v : Fp)
  | voteNullifierRoot (v : Fp)
  | approvalRoot (v : Fp)
  | configNonce (v : Fp)
  | parent (v : PublicKey)
  | parentNonce (v : Fp)
  | childExecutionRoot (v : Fp)
  | childMultiSigEnabled (v : Fp)
  | reservedConfigHash (v : Fp)
deriving DecidableEq

namespace StateValue

/-- The state has this value. -/
def Holds (s : GuardState) : StateValue → Prop
  | ownersCommitment v => v = s.ownersCommitment
  | threshold v => v = s.threshold
  | numOwners v => v = s.numOwners
  | nonce v => v = s.nonce
  | voteNullifierRoot v => v = s.voteNullifierRoot
  | approvalRoot v => v = s.approvalRoot
  | configNonce v => v = s.configNonce
  | parent v => v = s.parent
  | parentNonce v => v = s.parentNonce
  | childExecutionRoot v => v = s.childExecutionRoot
  | childMultiSigEnabled v => v = s.childMultiSigEnabled
  | reservedConfigHash v => v = s.reservedConfigHash

instance (s : GuardState) (v : StateValue) : Decidable (v.Holds s) := by
  cases v <;> unfold Holds <;> infer_instance

def write (s : GuardState) : StateValue → GuardState
  | ownersCommitment v => { s with ownersCommitment := v }
  | threshold v => { s with threshold := v }
  | numOwners v => { s with numOwners := v }
  | nonce v => { s with nonce := v }
  | voteNullifierRoot v => { s with voteNullifierRoot := v }
  | approvalRoot v => { s with approvalRoot := v }
  | configNonce v => { s with configNonce := v }
  | parent v => { s with parent := v }
  | parentNonce v => { s with parentNonce := v }
  | childExecutionRoot v => { s with childExecutionRoot := v }
  | childMultiSigEnabled v => { s with childMultiSigEnabled := v }
  | reservedConfigHash v => { s with reservedConfigHash := v }

end StateValue

/-- A declared state field: how to read it, and its value as a precondition or
a write. -/
structure StateField (α : Type) where
  get : GuardState → α
  value : α → StateValue

namespace StateField

def ownersCommitment : StateField Fp := ⟨GuardState.ownersCommitment, .ownersCommitment⟩
def threshold : StateField Fp := ⟨GuardState.threshold, .threshold⟩
def numOwners : StateField Fp := ⟨GuardState.numOwners, .numOwners⟩
def nonce : StateField Fp := ⟨GuardState.nonce, .nonce⟩
def voteNullifierRoot : StateField Fp := ⟨GuardState.voteNullifierRoot, .voteNullifierRoot⟩
def approvalRoot : StateField Fp := ⟨GuardState.approvalRoot, .approvalRoot⟩
def configNonce : StateField Fp := ⟨GuardState.configNonce, .configNonce⟩
def parent : StateField PublicKey := ⟨GuardState.parent, .parent⟩
def parentNonce : StateField Fp := ⟨GuardState.parentNonce, .parentNonce⟩
def childExecutionRoot : StateField Fp :=
  ⟨GuardState.childExecutionRoot, .childExecutionRoot⟩
def childMultiSigEnabled : StateField Fp :=
  ⟨GuardState.childMultiSigEnabled, .childMultiSigEnabled⟩
def reservedConfigHash : StateField Fp :=
  ⟨GuardState.reservedConfigHash, .reservedConfigHash⟩

end StateField

inductive Event where
  | setup (ownersCommitment threshold numOwners : Fp) (parent : PublicKey)
  | setupOwner (owner : PublicKey) (index : Fp)
  | proposal (proposalHash : Fp) (proposer : PublicKey)
      (tokenId txType data memoHash nonce configNonce expirySlot : Fp)
      (guardAddress : PublicKey) (destination : Fp) (childAccount : PublicKey)
  | receiver (proposalHash : Fp) (receiver : PublicKey) (amount : UInt64)
  | approval (proposalHash : Fp) (approver : PublicKey)
      (approvalCount approvalRoot voteNullifierRoot : Fp)
  | execution (proposalHash txType root : Fp)
  | ownerChange (proposalHash : Fp) (owner : PublicKey)
      (added newNumOwners newOwnersCommitment configNonce : Fp)
  | thresholdChange (proposalHash oldThreshold newThreshold configNonce : Fp)
  | delegate (proposalHash : Fp) (delegate : PublicKey)
  | createChild (proposalHash : Fp) (parentAddress : PublicKey)
  | reclaimChild (proposalHash : Fp) (parentAddress : PublicKey) (amount : UInt64)
  | enableChildMultiSig (proposalHash : Fp) (parentAddress : PublicKey)
      (enabled configNonce : Fp)
  | createChildConfig (proposalHash : Fp) (childAccount : PublicKey)
      (ownersCommitment threshold numOwners : Fp)
  | createChildOwner (proposalHash : Fp) (owner : PublicKey) (index : Fp)
deriving DecidableEq

/-- The update of the guard whose method was proved. -/
structure AccountUpdate where
  publicKey : PublicKey
  preconditions : List StateValue := []
  slotAtMost : Option ℕ := none
  balanceAtLeast : ℕ := 0
  appState : List StateValue := []
  locksPermissions : Bool := false
  delegate : Option PublicKey := none
  debit : ℕ := 0
  events : List Event := []
deriving DecidableEq

/-- An attached update: it reads a foreign guard, or credits an account, or
both. -/
structure ChildUpdate where
  publicKey : PublicKey
  preconditions : List StateValue := []
  credit : ℕ := 0
deriving DecidableEq

structure Forest where
  self : AccountUpdate
  children : List ChildUpdate
deriving DecidableEq

namespace Forest

variable (F : Forest)

def start (address : PublicKey) : Forest := ⟨{ publicKey := address }, []⟩

def require (v : StateValue) : Forest :=
  { F with self.preconditions := F.self.preconditions ++ [v] }

def write (v : StateValue) : Forest :=
  { F with self.appState := F.self.appState ++ [v] }

def emit (es : List Event) : Forest :=
  { F with self.events := F.self.events ++ es }

def bySlot (slot : ℕ) : Forest := { F with self.slotAtMost := some slot }

def attach (child : ChildUpdate) : Forest :=
  { F with children := F.children ++ [child] }

/-- Debit the guard by what the child is credited. -/
def pay (child : ChildUpdate) : Forest :=
  { F.attach child with self.debit := F.self.debit + child.credit }

/-- Attach and pay several updates, in order. -/
def payAll (children : List ChildUpdate) : Forest :=
  { self := { F.self with
      debit := F.self.debit + (children.map ChildUpdate.credit).sum }
    children := F.children ++ children }

theorem payAll_nil : F.payAll [] = F := by
  simp [payAll]

theorem payAll_cons (c : ChildUpdate) (children : List ChildUpdate) :
    F.payAll (c :: children) = (F.pay c).payAll children := by
  simp [payAll, pay, attach, add_assoc]

end Forest

/-! ## Circuits -/

/-- What the prover supplies besides the method arguments: the address the
method runs on, the states it claims for every account, and its balance. -/
structure Prover where
  address : PublicKey
  state : PublicKey → GuardState
  balance : UInt64

def Circuit (α : Type) : Type := Prover → Forest → Except String (α × Forest)

namespace Circuit

variable {α β : Type}

instance : Monad Circuit where
  pure a := fun _ F ↦ .ok (a, F)
  bind x f := fun P F ↦
    match x P F with
    | .error e => .error e
    | .ok r => f r.1 P r.2

/-- Assertion gadgets run inside circuits. -/
instance : MonadLift (Except String) Circuit where
  monadLift x := fun _ F ↦
    match x with
    | .error e => .error e
    | .ok a => .ok (a, F)

/-- `this.address`. -/
def thisAddress : Circuit PublicKey := fun P F ↦ .ok (P.address, F)

def getAndRequireEquals (field : StateField α) : Circuit α := fun P F ↦
  let v := field.get (P.state P.address)
  .ok (v, F.require (field.value v))

def requireEquals (field : StateField α) (v : α) : Circuit Unit := fun _ F ↦
  .ok ((), F.require (field.value v))

def set (field : StateField α) (v : α) : Circuit Unit := fun _ F ↦
  .ok ((), F.write (field.value v))

def emitEvent (e : Event) : Circuit Unit := fun _ F ↦ .ok ((), F.emit [e])

def emitEvents (es : List Event) : Circuit Unit := fun _ F ↦ .ok ((), F.emit es)

/-- `network.globalSlotSinceGenesis.requireBetween(0, slot)`. -/
def requireSlotAtMost (slot : ℕ) : Circuit Unit := fun _ F ↦ .ok ((), F.bySlot slot)

/-- `account.permissions.set(GUARD_PERMISSIONS)`. -/
def lockPermissions : Circuit Unit := fun _ F ↦
  .ok ((), { F with self.locksPermissions := true })

/-- `account.delegate.set`. -/
def setDelegate (delegate : PublicKey) : Circuit Unit := fun _ F ↦
  .ok ((), { F with self.delegate := some delegate })

/-- `account.balance.get()`, required as a lower bound. -/
def getBalanceLowerBound : Circuit UInt64 := fun P F ↦
  .ok (P.balance, { F with self.balanceAtLeast := P.balance.toNat })

/-- `this.send({ to, amount })`. -/
def send (recipient : PublicKey) (amount : UInt64) : Circuit Unit := fun _ F ↦
  .ok ((), F.pay { publicKey := recipient, credit := amount.toNat })

/-- `new MinaGuard(address)` attached to the forest, with the listed fields
read through `getAndRequireEquals`. -/
def readGuard (address : PublicKey) (fields : GuardState → List StateValue) :
    Circuit GuardState := fun P F ↦
  let s := P.state address
  .ok (s, F.attach { publicKey := address, preconditions := fields s })

/-- As `readGuard`, crediting the checked update. -/
def readAndPayGuard (address : PublicKey) (fields : GuardState → List StateValue)
    (amount : UInt64) : Circuit GuardState := fun P F ↦
  let s := P.state address
  .ok (s, F.pay
    { publicKey := address, preconditions := fields s, credit := amount.toNat })

variable {P : Prover} {F F' : Forest}

theorem bind_ok {x : Circuit α} {f : α → Circuit β} {r : β × Forest} :
    (x >>= f) P F = .ok r ↔ ∃ a F₁, x P F = .ok (a, F₁) ∧ f a P F₁ = .ok r := by
  simp only [bind]
  cases hx : x P F with
  | error e => simp
  | ok r₁ =>
      constructor
      · intro h
        exact ⟨r₁.1, r₁.2, rfl, h⟩
      · rintro ⟨a, F₁, heq, h⟩
        cases heq
        exact h

theorem pure_ok {a b : α} :
    (pure a : Circuit α) P F = .ok (b, F') ↔ a = b ∧ F = F' := by
  change Except.ok (a, F) = Except.ok (b, F') ↔ _
  simp

theorem check_ok {c : Check} {u : Unit} :
    (liftM c : Circuit Unit) P F = .ok (u, F') ↔ c = .ok () ∧ F = F' := by
  cases c with
  | error e => simp [liftM, monadLift, MonadLift.monadLift]
  | ok a => simp [liftM, monadLift, MonadLift.monadLift]

theorem thisAddress_ok {a : PublicKey} :
    thisAddress P F = .ok (a, F') ↔ P.address = a ∧ F = F' := by
  simp [thisAddress]

theorem getAndRequireEquals_ok {field : StateField α} {a : α} :
    getAndRequireEquals field P F = .ok (a, F') ↔
      field.get (P.state P.address) = a ∧ F.require (field.value a) = F' := by
  simp only [getAndRequireEquals, Except.ok.injEq, Prod.mk.injEq]
  constructor
  · rintro ⟨rfl, rfl⟩
    exact ⟨rfl, rfl⟩
  · rintro ⟨rfl, rfl⟩
    exact ⟨rfl, rfl⟩

theorem requireEquals_ok {field : StateField α} {v : α} {u : Unit} :
    requireEquals field v P F = .ok (u, F') ↔ F.require (field.value v) = F' := by
  simp [requireEquals]

theorem set_ok {field : StateField α} {v : α} {u : Unit} :
    set field v P F = .ok (u, F') ↔ F.write (field.value v) = F' := by
  simp [set]

theorem emitEvent_ok {e : Event} {u : Unit} :
    emitEvent e P F = .ok (u, F') ↔ F.emit [e] = F' := by
  simp [emitEvent]

theorem emitEvents_ok {es : List Event} {u : Unit} :
    emitEvents es P F = .ok (u, F') ↔ F.emit es = F' := by
  simp [emitEvents]

theorem requireSlotAtMost_ok {slot : ℕ} {u : Unit} :
    requireSlotAtMost slot P F = .ok (u, F') ↔ F.bySlot slot = F' := by
  simp [requireSlotAtMost]

theorem send_ok {recipient : PublicKey} {amount : UInt64} {u : Unit} :
    send recipient amount P F = .ok (u, F') ↔
      F.pay { publicKey := recipient, credit := amount.toNat } = F' := by
  simp [send]

theorem lockPermissions_ok {u : Unit} :
    lockPermissions P F = .ok (u, F') ↔
      { F with self.locksPermissions := true } = F' := by
  simp [lockPermissions]

theorem setDelegate_ok {delegate : PublicKey} {u : Unit} :
    setDelegate delegate P F = .ok (u, F') ↔
      { F with self.delegate := some delegate } = F' := by
  simp [setDelegate]

theorem getBalanceLowerBound_ok {balance : UInt64} :
    getBalanceLowerBound P F = .ok (balance, F') ↔
      P.balance = balance ∧ { F with self.balanceAtLeast := balance.toNat } = F' := by
  simp only [getBalanceLowerBound, Except.ok.injEq, Prod.mk.injEq]
  constructor
  · rintro ⟨rfl, rfl⟩
    exact ⟨rfl, rfl⟩
  · rintro ⟨rfl, rfl⟩
    exact ⟨rfl, rfl⟩

theorem readGuard_ok {address : PublicKey} {fields : GuardState → List StateValue}
    {s : GuardState} :
    readGuard address fields P F = .ok (s, F') ↔
      P.state address = s ∧
        F.attach { publicKey := address, preconditions := fields s } = F' := by
  simp only [readGuard, Except.ok.injEq, Prod.mk.injEq]
  constructor
  · rintro ⟨rfl, rfl⟩
    exact ⟨rfl, rfl⟩
  · rintro ⟨rfl, rfl⟩
    exact ⟨rfl, rfl⟩

theorem readAndPayGuard_ok {address : PublicKey}
    {fields : GuardState → List StateValue} {amount : UInt64} {s : GuardState} :
    readAndPayGuard address fields amount P F = .ok (s, F') ↔
      P.state address = s ∧
        F.pay { publicKey := address, preconditions := fields s,
                credit := amount.toNat } = F' := by
  simp only [readAndPayGuard, Except.ok.injEq, Prod.mk.injEq]
  constructor
  · rintro ⟨rfl, rfl⟩
    exact ⟨rfl, rfl⟩
  · rintro ⟨rfl, rfl⟩
    exact ⟨rfl, rfl⟩

/-- A loop whose body checks something and pays one update pays them all, in
order, and checks everything. -/
theorem forM_pay_ok {ι : Type} {f : ι → Circuit Unit} {child : ι → ChildUpdate}
    {holds : ι → Prop}
    (hf : ∀ i F F', f i P F = .ok ((), F') ↔ holds i ∧ F.pay (child i) = F')
    {l : List ι} {u : Unit} :
    forM l f P F = .ok (u, F') ↔
      (∀ i ∈ l, holds i) ∧ F.payAll (l.map child) = F' := by
  induction l generalizing F with
  | nil =>
      rw [List.forM_nil, pure_ok, List.map_nil, Forest.payAll_nil]
      simp
  | cons i l ih =>
      rw [List.forM_cons, bind_ok, List.map_cons, Forest.payAll_cons]
      constructor
      · rintro ⟨_, F₁, hhead, htail⟩
        obtain ⟨hi, rfl⟩ := (hf i F F₁).mp hhead
        obtain ⟨hl, rfl⟩ := ih.mp htail
        refine ⟨?_, rfl⟩
        intro j hj
        rcases List.mem_cons.mp hj with rfl | hj
        · exact hi
        · exact hl j hj
      · rintro ⟨hall, rfl⟩
        have hhead := (hf i F _).mpr ⟨hall i List.mem_cons_self, rfl⟩
        have htail := ih.mpr ⟨fun j hj ↦ hall j (List.mem_cons_of_mem i hj), rfl⟩
        exact ⟨(), _, hhead, htail⟩

end Circuit

end MinaGuard

import MinaGuard.Instance.Tables
import MinaGuard.Contract.Inclusion

/-!
# Playing calls on a finite ledger

A book lists the accounts that exist.  Applying a forest to a book is applying
it to the ledger the book stands for, so a script of calls that plays is a
path of the ledger.

The walkthrough at the end is such a script: a root guard with two owners
reserves and creates a child, takes a third owner in, and disables the child.
-/

namespace MinaGuard

open Foundations

/-- An account nobody has touched. -/
def Account.untouched (a : PublicKey) : Account where
  appState := GuardState.zero
  permissionsLocked := false
  balance := 0
  delegate := a

structure Book where
  accounts : List (PublicKey × Account)
  slot : ℕ
deriving DecidableEq

namespace Book

variable (b : Book)

def account (a : PublicKey) : Account := (b.accounts.lookup a).getD (Account.untouched a)

def ledger : Ledger := ⟨b.account, b.slot⟩

def setAccount (a : PublicKey) (acc : Account) : Book :=
  { b with accounts := (a, acc) :: b.accounts.filter fun x ↦ x.1 ≠ a }

def credit (a : PublicKey) (amount : ℕ) : Book :=
  b.setAccount a { b.account a with balance := (b.account a).balance + amount }

theorem lookup_filter_ne {a c : PublicKey} (hne : c ≠ a) (l : List (PublicKey × Account)) :
    (l.filter fun x ↦ x.1 ≠ a).lookup c = l.lookup c := by
  induction l with
  | nil => rfl
  | cons x l ih =>
      obtain ⟨d, acc⟩ := x
      by_cases hd : d = a
      · have hcd : (c == d) = false := by
          rw [hd]
          exact beq_false_of_ne hne
        rw [List.filter_cons_of_neg (by simpa using hd), List.lookup_cons, hcd]
        exact ih
      · rw [List.filter_cons_of_pos (by simpa using hd), List.lookup_cons,
          List.lookup_cons, ih]

theorem ledger_setAccount (a : PublicKey) (acc : Account) :
    (b.setAccount a acc).ledger = b.ledger.setAccount a acc := by
  unfold ledger Ledger.setAccount
  congr 1
  funext c
  by_cases hc : c = a
  · subst hc
    simp [account, setAccount]
  · rw [Function.update_of_ne hc]
    have hbeq : (c == a) = false := beq_false_of_ne hc
    unfold account setAccount
    rw [List.lookup_cons, hbeq]
    exact congrArg (Option.getD · _) (lookup_filter_ne hc _)

theorem ledger_credit (a : PublicKey) (amount : ℕ) :
    (b.credit a amount).ledger = b.ledger.credit a amount :=
  b.ledger_setAccount a _

def applySelf (u : AccountUpdate) : Option Book :=
  if u.Satisfied b.ledger then
    some (b.setAccount u.publicKey (u.updated (b.account u.publicKey)))
  else none

def applyChild (c : ChildUpdate) : Option Book :=
  if ∀ v ∈ c.preconditions, v.Holds (b.ledger.state c.publicKey) then
    some (b.credit c.publicKey c.credit)
  else none

def applyForest (F : Forest) : Option Book :=
  (b.applySelf F.self).bind fun b₁ ↦ F.children.foldlM applyChild b₁

variable {b} {b' : Book}

theorem apply_of_applySelf {u : AccountUpdate} (h : b.applySelf u = some b') :
    u.apply b.ledger = some b'.ledger := by
  unfold applySelf at h
  unfold AccountUpdate.apply
  split at h
  · rename_i hsat
    cases h
    rw [if_pos hsat, ledger_setAccount]
    rfl
  · cases h

theorem apply_of_applyChild {c : ChildUpdate} (h : b.applyChild c = some b') :
    c.apply b.ledger = some b'.ledger := by
  unfold applyChild at h
  unfold ChildUpdate.apply
  split at h
  · rename_i hholds
    cases h
    rw [if_pos hholds, ledger_credit]
  · cases h

theorem apply_of_applyChildren {cs : List ChildUpdate}
    (h : cs.foldlM applyChild b = some b') :
    cs.foldlM ChildUpdate.apply b.ledger = some b'.ledger := by
  induction cs generalizing b with
  | nil =>
      obtain rfl : b = b' := by simpa using h
      rfl
  | cons c cs ih =>
      rw [List.foldlM_cons] at h ⊢
      obtain ⟨b₁, hhead, htail⟩ := Option.bind_eq_some_iff.mp h
      exact Option.bind_eq_some_iff.mpr ⟨b₁.ledger, apply_of_applyChild hhead, ih htail⟩

theorem apply_of_applyForest {F : Forest} (h : b.applyForest F = some b') :
    F.apply b.ledger = some b'.ledger := by
  obtain ⟨b₁, hself, hchildren⟩ := Option.bind_eq_some_iff.mp h
  exact Option.bind_eq_some_iff.mpr
    ⟨b₁.ledger, apply_of_applySelf hself, apply_of_applyChildren hchildren⟩

variable {t : Tables}

/-- A prover who claims what the ledger says. -/
def prover (b : Book) (a : PublicKey) : Prover where
  address := a
  state := b.ledger.state
  balance := UInt64.ofNat (b.account a).balance

def forest (b : Book) (a : PublicKey) (m : MethodCall t.env) : Forest :=
  (m.prove (b.prover a)).toOption.getD (Forest.start a)

def call (b : Book) (a : PublicKey) (m : MethodCall t.env) : Option Book :=
  (m.prove (b.prover a)).toOption.bind b.applyForest

theorem ledgerStep_of_call {guards : Set PublicKey} {a : PublicKey} {m : MethodCall t.env}
    (ha : a ∈ guards) (hm : t.Lists m) (h : b.call a m = some b') :
    LedgerStep t.transcript guards b.ledger (.call a m (b.forest a m)) b'.ledger := by
  obtain ⟨F, hprove, hF⟩ := Option.bind_eq_some_iff.mp h
  have hforest : b.forest a m = F := by
    rw [forest, hprove]
    rfl
  rw [hforest]
  refine @LedgerStep.call _ _ _ _ _ (b.prover a) m F ha (t.recorded_of_lists hm) ?_
    (apply_of_applyForest hF)
  cases hresult : m.prove (b.prover a) with
  | error e => simp [hresult, Except.toOption] at hprove
  | ok F' =>
      rw [hresult] at hprove
      exact congrArg Except.ok (Option.some_injective _ hprove)

/-- A script: who is called, how, and the book it should lead to. -/
abbrev Script (t : Tables) := List (PublicKey × MethodCall t.env × Book)

def last : Book → Script t → Book
  | b, [] => b
  | _, (_, _, b') :: script => last b' script

def actions : Book → Script t → List (Action t.env)
  | _, [] => []
  | b, (a, m, b') :: script => .call a m (b.forest a m) :: actions b' script

/-- Every call of the script succeeds, on one of the guards. -/
def Plays (guards : List PublicKey) : Book → Script t → Prop
  | _, [] => True
  | b, (a, m, b') :: script =>
      (a ∈ guards ∧ t.Lists m ∧ b.call a m = some b') ∧ Plays guards b' script

instance decidablePlays (guards : List PublicKey) :
    ∀ (b : Book) (script : Script t), Decidable (Plays guards b script)
  | _, [] => isTrue trivial
  | b, (a, m, b') :: script =>
      @instDecidableAnd (a ∈ guards ∧ t.Lists m ∧ b.call a m = some b')
        (Plays guards b' script) inferInstance (decidablePlays guards b' script)

theorem path_of_plays {guards : List PublicKey} {script : Script t}
    (h : Plays guards b script) :
    (ledgerSystem t.transcript {a | a ∈ guards}).Path b.ledger (b.actions script)
      (b.last script).ledger := by
  induction script generalizing b with
  | nil => rfl
  | cons call script ih =>
      obtain ⟨a, m, b'⟩ := call
      obtain ⟨⟨ha, hm, hcall⟩, hrest⟩ := h
      exact ⟨b'.ledger, ledgerStep_of_call ha hm hcall, ih hrest⟩

theorem step_of_plays {guards : List PublicKey} {a : PublicKey} {m : MethodCall t.env}
    (h : Plays guards b [(a, m, b')]) :
    LedgerStep t.transcript {a | a ∈ guards} b.ledger (.call a m (b.forest a m)) b'.ledger :=
  ledgerStep_of_call h.1.1 h.1.2.1 h.1.2.2

/-- A script that plays from an empty book is a run. -/
theorem run_of_plays {guards : List PublicKey} {script : Script t} {slot : ℕ}
    (h : Plays guards ⟨[], slot⟩ script) :
    (ledgerSystem t.transcript {a | a ∈ guards}).Run (actions ⟨[], slot⟩ script)
      (last ⟨[], slot⟩ script).ledger :=
  ⟨_, fun _ _ ↦ rfl, path_of_plays h⟩

end Book

namespace Walkthrough

/-- Numerals of the walkthrough are natural numbers, read as field elements. -/
local instance (n : ℕ) : OfNat Fp n := ⟨(n : Fp)⟩

def root : PublicKey := ⟨5, false⟩
def child : PublicKey := ⟨6, true⟩
def ownerA : PublicKey := ⟨1, true⟩
def ownerB : PublicKey := ⟨3, false⟩
def ownerC : PublicKey := ⟨4, true⟩

def guards : List PublicKey := [root, child]

/-! The proposals.  A digest is the position of its input in `tables`, from one. -/

def createChild : TransactionProposal where
  receivers := receiverSlots []
  tokenId := nativeTokenId
  txType := TxType.createChild
  data := 5
  memoHash := 0
  nonce := 0
  configNonce := 0
  expirySlot := 0
  guardAddress := root
  destination := destinationRemote
  childAccount := child

def addOwnerC : TransactionProposal :=
  { createChild with
    receivers := receiverSlots [⟨ownerC, 0⟩]
    txType := TxType.addOwner
    data := 4
    nonce := 1
    destination := destinationLocal
    childAccount := PublicKey.empty }

/-- A payment by the child. -/
def payB : TransactionProposal :=
  { createChild with
    receivers := receiverSlots [⟨ownerB, 7⟩]
    txType := TxType.transfer
    data := 0
    nonce := 1
    expirySlot := 100
    guardAddress := child
    destination := destinationLocal
    childAccount := PublicKey.empty }

/-- Another one, to three accounts of which one is there. -/
def payThree : TransactionProposal :=
  { payB with receivers := receiverSlots [⟨ownerB, 3⟩, ⟨ownerC, 4⟩, ⟨root, 5⟩] }

def disableChild : TransactionProposal :=
  { createChild with
    txType := TxType.enableChildMultiSig
    data := 0
    nonce := 1
    configNonce := 1 }

def lowerThreshold : TransactionProposal :=
  { createChild with
    txType := TxType.changeThreshold
    data := 1
    nonce := 1
    destination := destinationLocal
    childAccount := PublicKey.empty }

/-- As `addOwnerC`, in front of the other owners. -/
def addOwnerFirst : TransactionProposal := { addOwnerC with data := 29 }

def reclaimFive : TransactionProposal :=
  { createChild with txType := TxType.reclaimChild, data := 5, nonce := 1 }

def blank : Tables where
  inputs := [("owner-chain", [])]
  keys := []
  points := []
  few_inputs := by decide
  few_keys := by decide
  start_mem := List.mem_cons_self

def proposalInput : TransactionProposal → HashInput := blank.env.proposalInput

def tables : Tables where
  inputs :=
    [("owner-chain", []), Env.ownerLinkInput 1 ownerA, Env.ownerLinkInput 2 ownerB,
      Env.ownerLinkInput 3 ownerC, Env.childConfigInput 2 1 1,
      proposalInput createChild, Env.voteNullifierInput 6 ownerA,
      Env.voteNullifierInput 6 ownerB, ("mina-guard-propose", [6]),
      ("mina-guard-approve", [6]),
      proposalInput addOwnerC, Env.voteNullifierInput 11 ownerA,
      Env.voteNullifierInput 11 ownerB, ("mina-guard-propose", [11]),
      ("mina-guard-approve", [11]),
      proposalInput payB, Env.voteNullifierInput 16 ownerA, ("mina-guard-propose", [16]),
      proposalInput disableChild, Env.voteNullifierInput 19 ownerA,
      Env.voteNullifierInput 19 ownerB, ("mina-guard-propose", [19]),
      ("mina-guard-approve", [19]),
      proposalInput lowerThreshold, Env.voteNullifierInput 24 ownerA,
      Env.voteNullifierInput 24 ownerB,
      Env.ownerLinkInput 1 ownerC, Env.ownerLinkInput 27 ownerA, Env.ownerLinkInput 28 ownerB,
      proposalInput addOwnerFirst, Env.voteNullifierInput 30 ownerA,
      Env.voteNullifierInput 30 ownerB,
      proposalInput reclaimFive, Env.voteNullifierInput 33 ownerA,
      Env.voteNullifierInput 33 ownerB,
      Env.ownerLinkInput 2 ownerC, Env.ownerLinkInput 36 ownerB,
      Env.ownerLinkInput 1 ownerB, Env.ownerLinkInput 38 ownerA, Env.childConfigInput 39 2 2,
      proposalInput payThree]
  keys := [6, 7, 8, 11, 12, 13, 16, 17, 19, 20, 21, 24, 25, 26, 30, 31, 32, 33, 34, 35, 41]
  points :=
    [{ x := 3
       y := 5407660250332889438998714548556582811545924832263507730464733339825117475984
       onCurve := by decide +kernel },
      { x := 4
        y := 652136185357270943966022995003769400203090653285901597368151869610417544386
        onCurve := by decide +kernel },
      { x := 5
        y := 5392431450607408583390510508521091931943415030464003135511088002453056875732
        onCurve := by decide +kernel },
      { x := 6
        y := 2729714541271793022903551140444940208038393637250089875604354618922735428184
        onCurve := by decide +kernel }]
  few_inputs := by decide +kernel
  few_keys := by decide
  start_mem := List.mem_cons_self

def signed (key : PublicKey) (message : Fp) : tables.env.Signature := (key, [message])

def opening (leaves : List (Fp × Fp)) (key : Fp) : tables.env.MerkleMapWitness :=
  Opening.mk leaves key

def setupRoot : MethodCall tables.env := .setup 2 2 (setupInput [ownerA, ownerB])

def reserveChild : MethodCall tables.env :=
  .reserveForParent root 6 1 1 (setupInput [ownerA])

def proposeCreate : MethodCall tables.env :=
  .propose createChild (ownerWitness [ownerA, ownerB]) ownerA (signed ownerA 9)
    (opening [] 7) (opening [] 6)

def approveCreate : MethodCall tables.env :=
  .approveProposal createChild (signed ownerB 10) ownerB (ownerWitness [ownerA, ownerB])
    (opening [(6, 2)] 6) 2 (opening [(7, 1)] 8)

def executeCreate : MethodCall tables.env :=
  .executeSetupChild 1 1 (setupInput [ownerA]) createChild (opening [(6, 3)] 6) 3

def proposeAdd : MethodCall tables.env :=
  .propose addOwnerC (ownerWitness [ownerA, ownerB]) ownerA (signed ownerA 14)
    (opening [(7, 1), (8, 1)] 12) (opening [(6, 3)] 11)

def approveAdd : MethodCall tables.env :=
  .approveProposal addOwnerC (signed ownerB 15) ownerB (ownerWitness [ownerA, ownerB])
    (opening [(6, 3), (11, 2)] 11) 2 (opening [(7, 1), (8, 1), (12, 1)] 13)

def executeAdd : MethodCall tables.env :=
  .executeOwnerChange addOwnerC (opening [(6, 3), (11, 3)] 11) 3
    (ownerWitness [ownerA, ownerB]) ⟨true, ownerB⟩

def proposePayment : MethodCall tables.env :=
  .propose payB (ownerWitness [ownerA]) ownerA (signed ownerA 18) (opening [] 17)
    (opening [] 16)

def proposeDisable : MethodCall tables.env :=
  .propose disableChild (ownerWitness [ownerA, ownerB, ownerC]) ownerA (signed ownerA 22)
    (opening [(7, 1), (8, 1), (12, 1), (13, 1)] 20)
    (opening [(6, 3), (11, executedMarker)] 19)

def approveDisable : MethodCall tables.env :=
  .approveProposal disableChild (signed ownerB 23) ownerB
    (ownerWitness [ownerA, ownerB, ownerC])
    (opening [(6, 3), (11, executedMarker), (19, 2)] 19) 2
    (opening [(7, 1), (8, 1), (12, 1), (13, 1), (20, 1)] 21)

def executeDisable : MethodCall tables.env :=
  .executeEnableChildMultiSig disableChild
    (opening [(6, 3), (11, executedMarker), (19, 3)] 19) 3 (opening [] 19) 0

def rootOf (leaves : List (Fp × Fp)) : Fp :=
  tables.env.merkleMap.getRoot (Opening.map ⟨leaves, 0⟩)

def rootState : GuardState where
  ownersCommitment := 3
  threshold := 2
  numOwners := 2
  nonce := 0
  voteNullifierRoot := rootOf []
  approvalRoot := rootOf []
  configNonce := 0
  parent := PublicKey.empty
  parentNonce := 0
  childExecutionRoot := rootOf []
  childMultiSigEnabled := 1
  reservedConfigHash := 0

def childState : GuardState :=
  { rootState with ownersCommitment := 2, threshold := 1, numOwners := 1, parent := root }

def reservedState : GuardState :=
  { GuardState.zero with parent := root, reservedConfigHash := 5 }

def voted (s : GuardState) (nullifiers approvals : List (Fp × Fp)) : GuardState :=
  { s with voteNullifierRoot := rootOf nullifiers, approvalRoot := rootOf approvals }

def rootCreateApproved : GuardState := voted rootState [(7, 1), (8, 1)] [(6, 3)]

def rootAddApproved : GuardState :=
  voted rootState [(7, 1), (8, 1), (12, 1), (13, 1)] [(6, 3), (11, 3)]

def rootAdded : GuardState :=
  { rootAddApproved with
    ownersCommitment := 4
    numOwners := 3
    nonce := 1
    approvalRoot := rootOf [(6, 3), (11, executedMarker)]
    configNonce := 1 }

def rootDisableApproved : GuardState :=
  voted rootAdded [(7, 1), (8, 1), (12, 1), (13, 1), (20, 1), (21, 1)]
    [(6, 3), (11, executedMarker), (19, 3)]

def childProposed : GuardState := voted childState [(17, 1)] [(16, 2)]

def childDisabled : GuardState :=
  { childProposed with
    configNonce := 1
    parentNonce := 1
    childExecutionRoot := rootOf [(19, executedMarker)]
    childMultiSigEnabled := 0 }

def entry (a : PublicKey) (s : GuardState) : PublicKey × Account :=
  (a, { Account.untouched a with appState := s, permissionsLocked := true })

def emptyBook : Book := ⟨[], 10⟩

def addApproved : Book := ⟨[entry root rootAddApproved, entry child childState], 10⟩

def added : Book := ⟨[entry root rootAdded, entry child childState], 10⟩

def disableApproved : Book :=
  ⟨[entry child childProposed, entry root rootDisableApproved], 10⟩

def disabled : Book := ⟨[entry root rootDisableApproved, entry child childDisabled], 10⟩

def beforeAdd : Book.Script tables :=
  [(root, setupRoot, ⟨[entry root rootState], 10⟩),
    (child, reserveChild, ⟨[entry root rootState, entry child reservedState], 10⟩),
    (root, proposeCreate,
      ⟨[entry root (voted rootState [(7, 1)] [(6, 2)]), entry child reservedState], 10⟩),
    (root, approveCreate, ⟨[entry root rootCreateApproved, entry child reservedState], 10⟩),
    (child, executeCreate, ⟨[entry root rootCreateApproved, entry child childState], 10⟩),
    (root, proposeAdd,
      ⟨[entry root (voted rootState [(7, 1), (8, 1), (12, 1)] [(6, 3), (11, 2)]),
        entry child childState], 10⟩),
    (root, approveAdd, addApproved)]

def beforeDisable : Book.Script tables :=
  [(child, proposePayment, ⟨[entry child childProposed, entry root rootAdded], 10⟩),
    (root, proposeDisable,
      ⟨[entry child childProposed,
        entry root (voted rootAdded [(7, 1), (8, 1), (12, 1), (13, 1), (20, 1)]
          [(6, 3), (11, executedMarker), (19, 2)])], 10⟩),
    (root, approveDisable, disableApproved)]

theorem beforeAdd_plays : Book.Plays guards emptyBook beforeAdd := by decide +kernel

theorem add_plays : Book.Plays guards addApproved [(root, executeAdd, added)] := by
  decide +kernel

theorem beforeDisable_plays : Book.Plays guards added beforeDisable := by decide +kernel

theorem disable_plays :
    Book.Plays guards disableApproved [(child, executeDisable, disabled)] := by
  decide +kernel

abbrev system : TransitionSystem Ledger (Action tables.env) :=
  ledgerSystem tables.transcript {a | a ∈ guards}

def actionsBeforeAdd : List (Action tables.env) := Book.actions emptyBook beforeAdd

def add : Action tables.env := .call root executeAdd (addApproved.forest root executeAdd)

def actionsBeforeDisable : List (Action tables.env) := Book.actions added beforeDisable

def disable : Action tables.env :=
  .call child executeDisable (disableApproved.forest child executeDisable)

theorem run_beforeAdd : system.Run actionsBeforeAdd addApproved.ledger :=
  Book.run_of_plays beforeAdd_plays

theorem add_step : system.step addApproved.ledger add added.ledger :=
  Book.step_of_plays add_plays

theorem path_beforeDisable :
    system.Path added.ledger actionsBeforeDisable disableApproved.ledger :=
  Book.path_of_plays beforeDisable_plays

theorem disable_step : system.step disableApproved.ledger disable disabled.ledger :=
  Book.step_of_plays disable_plays

theorem run_added : system.Run (actionsBeforeAdd ++ [add]) added.ledger :=
  run_beforeAdd.step add_step

theorem run_disableApproved :
    system.Run (actionsBeforeAdd ++ [add] ++ actionsBeforeDisable) disableApproved.ledger :=
  run_added.extend path_beforeDisable

theorem run_disabled :
    system.Run (actionsBeforeAdd ++ [add] ++ actionsBeforeDisable ++ [disable])
      disabled.ledger :=
  run_disableApproved.step disable_step

end Walkthrough

end MinaGuard

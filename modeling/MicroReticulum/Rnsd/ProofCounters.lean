import MicroReticulum.Lib.Runs

/-!
# The proof counters of a link

A connection tracks the receipt of its latest send. `linkTick` settles it by its
status, and a send that comes before settles it as unproven, whatever its
status. The receipts are shared with the transport, which concludes them as
proofs arrive and as they time out.
-/

namespace MicroReticulum.Rnsd.ProofCounters

open Lib.Runs

inductive ReceiptStatus where
  | failed | sent | delivered | culled
  deriving DecidableEq, Repr

structure PacketReceipt where
  status : ReceiptStatus := .sent
  sentAt : ℚ
  timeout : ℚ
  concludedAt : ℚ := 0
  deriving DecidableEq

/-- A tracked send as it was settled. -/
structure Settlement where
  receipt : PacketReceipt
  deadline : ℚ
  proven : Bool
  deriving DecidableEq

/-- An ACTIVE connection, and the receipts the transport has made for it. -/
structure LinkConn where
  receipts : List PacketReceipt := []
  /-- Those in the transport's `_receipts`, oldest first. -/
  outstanding : List Nat := []
  txReceipt : Option Nat := none
  txReceiptDeadline : ℚ := 0
  noProofs : Bool := false
  txCount : Nat := 0
  lastOut : ℚ := 0
  lastError : String := ""
  txProven : Nat := 0
  txRttMs : Int := 0
  proofTimeouts : Nat := 0
  /-- The sends tracked, and what has become of them. -/
  tracked : Nat := 0
  settled : List Settlement := []

/-- What becomes of a packet: whether the transport makes a receipt for what is sent. -/
inductive Sending where
  | oversize
  | threw
  | sent (receipt : Bool)
  deriving DecidableEq, Repr

inductive Op where
  | send (now : ℚ) (setting : Int) (sending : Sending)
  /-- A proof arrives that validates. -/
  | proof (now : ℚ) (i : Nat)
  | tick (now : ℚ)
  /-- The transport looks through `_receipts`. -/
  | jobs (now : ℚ)
  /-- The oldest receipt goes where there are too many. -/
  | cull (now : ℚ)

/-- `rnsdProofWindowS`. -/
def proofWindow (setting : Int) : Int := if setting < 1 then 1 else if setting > 32767 then 32767 else setting

-- ---------------------------------------------------------------------------
-- Receipts
-- ---------------------------------------------------------------------------

namespace PacketReceipt

variable (r : PacketReceipt)

def deliver (now : ℚ) : PacketReceipt := { r with status := .delivered, concludedAt := now }

def isTimedOut (now : ℚ) : Bool := r.sentAt + r.timeout < now

def checkTimeout (now : ℚ) : PacketReceipt :=
  if r.status = .sent ∧ r.isTimedOut now then
    { r with status := if r.timeout = -1 then .culled else .failed, concludedAt := now }
  else r

/-- In milliseconds, cut to an integer. -/
def rttMs : Int := ((r.concludedAt - r.sentAt) * 1000).num.tdiv ((r.concludedAt - r.sentAt) * 1000).den

end PacketReceipt

namespace LinkConn

variable (c : LinkConn)

def status (i : Nat) : Option ReceiptStatus := c.receipts[i]?.map (·.status)

/-- The transport's half: a proof, a look through the receipts, one pushed out. -/
def validateProof (now : ℚ) (i : Nat) : LinkConn :=
  if i ∈ c.outstanding then
    { c with receipts := c.receipts.modify i (·.deliver now), outstanding := c.outstanding.erase i }
  else c

def checkReceipts (now : ℚ) : LinkConn :=
  let receipts := c.receipts.mapIdx fun i r => if i ∈ c.outstanding then r.checkTimeout now else r
  { c with receipts, outstanding := c.outstanding.filter fun i => (receipts[i]?.map (·.status)) = some .sent }

def cullReceipt (now : ℚ) : LinkConn :=
  match c.outstanding with
  | [] => c
  | i :: rest => { c with
      receipts := c.receipts.modify i fun r => { r with timeout := -1 }.checkTimeout now
      outstanding := rest }

-- ---------------------------------------------------------------------------
-- linkTrackTxReceipt and linkTick
-- ---------------------------------------------------------------------------

/-- One counter goes up for the receipt that is pending. -/
def bump (proven : Bool) : LinkConn :=
  match c.txReceipt.bind (c.receipts[·]?) with
  | some r => { c with
      txProven := if proven then c.txProven + 1 else c.txProven
      txRttMs := if proven then r.rttMs else c.txRttMs
      proofTimeouts := if proven then c.proofTimeouts else c.proofTimeouts + 1
      settled := c.settled ++ [{ receipt := r, deadline := c.txReceiptDeadline, proven }] }
  | none => c

/-- A receipt is adopted; the one before is closed as unproven. -/
def linkTrackTxReceipt (now : ℚ) (setting : Int) (i : Nat) : LinkConn :=
  let c := c.bump false
  { c with
    txReceipt := some i
    receipts := c.receipts.modify i fun r => { r with timeout := proofWindow setting }
    txReceiptDeadline := now + proofWindow setting
    tracked := c.tracked + 1 }

def linkTick (now : ℚ) : LinkConn :=
  match c.txReceipt.bind c.status with
  | none => c
  | some pst =>
    if pst = .delivered then { c.bump true with txReceipt := none, txReceiptDeadline := 0 }
    else if pst ≠ .sent ∨ c.txReceiptDeadline ≠ 0 ∧ now ≥ c.txReceiptDeadline then
      { c.bump false with txReceipt := none, txReceiptDeadline := 0 }
    else c

/-- `linkConsumerSend` on an ACTIVE link. -/
def linkConsumerSend (now : ℚ) (setting : Int) : Sending → LinkConn
  | .oversize => { c with lastError := "oversize" }
  | .threw => { c with lastError := "send_threw" }
  | .sent receipt =>
    let c :=
      if receipt ∧ !c.noProofs then
        ({ c with
          receipts := c.receipts ++ [{ sentAt := now, timeout := 0 }]
          outstanding := c.outstanding ++ [c.receipts.length] } : LinkConn).linkTrackTxReceipt now setting c.receipts.length
      else c
    { c with txCount := c.txCount + 1, lastOut := now }

def step (c : LinkConn) : Op → LinkConn
  | .send now setting sending => c.linkConsumerSend now setting sending
  | .proof now i => c.validateProof now i
  | .tick now => c.linkTick now
  | .jobs now => c.checkReceipts now
  | .cull now => c.cullReceipt now

-- ---------------------------------------------------------------------------
-- The specification
-- ---------------------------------------------------------------------------

/-- The proof has validated within the window. -/
def InTime (r : PacketReceipt) (deadline : ℚ) : Prop := r.status = .delivered ∧ r.concludedAt ≤ deadline

instance (r : PacketReceipt) (deadline : ℚ) : Decidable (InTime r deadline) := inferInstanceAs (Decidable (_ ∧ _))

structure Accounted (c : LinkConn) : Prop where
  proven : c.txProven = c.settled.countP (·.proven)
  timeouts : c.proofTimeouts = c.settled.countP (!·.proven)
  all : c.tracked = c.txProven + c.proofTimeouts + if c.txReceipt.isSome then 1 else 0
  credited : ∀ e ∈ c.settled, InTime e.receipt e.deadline → e.proven

/-- A tracked send comes where no proof waits to be noticed. -/
def Noticed (c : LinkConn) : Op → Prop
  | .send _ _ (.sent true) => c.noProofs = false → ∀ i ∈ c.txReceipt, ∀ r ∈ c.receipts[i]?, ¬ InTime r c.txReceiptDeadline
  | _ => True

instance (c : LinkConn) : ∀ op, Decidable (Noticed c op)
  | .send _ _ (.sent true) => inferInstanceAs (Decidable (_ → ∀ i ∈ c.txReceipt, ∀ r ∈ c.receipts[i]?, ¬ InTime r _))
  | .send _ _ (.sent false) | .send _ _ .oversize | .send _ _ .threw | .proof .. | .tick _ | .jobs _ | .cull _ =>
    .isTrue trivial

-- ---------------------------------------------------------------------------
-- Steps
-- ---------------------------------------------------------------------------

variable {c c' : LinkConn} {op : Op} {now : ℚ} {setting : Int} {i : Nat} {proven : Bool} {r : PacketReceipt}

structure Inv (c : LinkConn) : Prop where
  accounted : Accounted c
  pending : ∀ i ∈ c.txReceipt, i < c.receipts.length

/-- What the transport does leaves the connection alone. -/
structure Conducts (c c' : LinkConn) : Prop where
  txReceipt : c'.txReceipt = c.txReceipt
  txProven : c'.txProven = c.txProven
  proofTimeouts : c'.proofTimeouts = c.proofTimeouts
  tracked : c'.tracked = c.tracked
  settled : c'.settled = c.settled
  receipts : c.receipts.length ≤ c'.receipts.length

theorem Conducts.inv (h : Conducts c c') (hinv : Inv c) : Inv c' where
  accounted := by
    obtain ⟨hproven, htimeouts, hall, hcredited⟩ := hinv.accounted
    constructor
    · rw [h.txProven, h.settled, hproven]
    · rw [h.proofTimeouts, h.settled, htimeouts]
    · rw [h.tracked, h.txProven, h.proofTimeouts, h.txReceipt, hall]
    · rw [h.settled]
      exact hcredited
  pending := by
    rw [h.txReceipt]
    exact fun i hi => (hinv.pending i hi).trans_le h.receipts

theorem validateProof_conducts : Conducts c (c.validateProof now i) := by
  unfold validateProof
  split
  · exact ⟨rfl, rfl, rfl, rfl, rfl, by simp⟩
  · exact ⟨rfl, rfl, rfl, rfl, rfl, le_refl _⟩

theorem checkReceipts_conducts : Conducts c (c.checkReceipts now) :=
  ⟨rfl, rfl, rfl, rfl, rfl, by simp [checkReceipts]⟩

theorem cullReceipt_conducts : Conducts c (c.cullReceipt now) := by
  unfold cullReceipt
  split
  · exact ⟨rfl, rfl, rfl, rfl, rfl, le_refl _⟩
  · exact ⟨rfl, rfl, rfl, rfl, rfl, by simp⟩

/-- The counters stand for what is settled. -/
structure Counted (c : LinkConn) : Prop where
  proven : c.txProven = c.settled.countP (·.proven)
  timeouts : c.proofTimeouts = c.settled.countP (!·.proven)
  credited : ∀ e ∈ c.settled, InTime e.receipt e.deadline → e.proven
  all : c.tracked = c.txProven + c.proofTimeouts

/-- A pending receipt is settled, and counted as its status says or as unproven. -/
theorem bump_counted (hinv : Inv c)
    (hcredit : ∀ i ∈ c.txReceipt, ∀ r ∈ c.receipts[i]?, InTime r c.txReceiptDeadline → proven = true) :
    Counted (c.bump proven) ∧ (c.bump proven).receipts = c.receipts := by
  obtain ⟨hproven, htimeouts, hall, hcredited⟩ := hinv.accounted
  unfold bump
  cases hi : c.txReceipt with
  | none =>
    rw [hi] at hall
    exact ⟨⟨hproven, htimeouts, hcredited, hall⟩, rfl⟩
  | some i =>
    have hlt := hinv.pending i hi
    rw [hi] at hall
    rw [Option.bind_some, List.getElem?_eq_getElem hlt]
    refine ⟨⟨?_, ?_, ?_, ?_⟩, rfl⟩
    · cases proven <;> simp [hproven]
    · cases proven <;> simp [htimeouts]
    · intro e he
      rcases List.mem_append.1 he with he | he
      · exact hcredited e he
      · rw [List.mem_singleton.1 he]
        exact hcredit i hi _ (List.getElem?_eq_getElem hlt)
    · cases proven <;> simp at hall ⊢ <;> omega

theorem Counted.inv (h : Counted c) {deadline : ℚ} : Inv { c with txReceipt := none, txReceiptDeadline := deadline } where
  accounted := ⟨h.proven, h.timeouts, h.all, h.credited⟩
  pending i hi := by cases hi

theorem linkTick_inv (hinv : Inv c) : Inv (c.linkTick now) := by
  unfold linkTick
  split
  · exact hinv
  · next pst hpst =>
    obtain ⟨i, hi, hstatus⟩ := Option.bind_eq_some_iff.1 hpst
    obtain ⟨r, hr, rfl⟩ := Option.map_eq_some_iff.1 hstatus
    split
    · exact (bump_counted hinv fun _ _ _ _ _ => rfl).1.inv
    · next hne =>
      have hcounted : Counted (c.bump false) := by
        refine (bump_counted hinv fun i' hi' r' hr' hin => ?_).1
        cases hi.symm.trans hi'
        cases hr.symm.trans hr'
        exact absurd hin.1 hne
      split
      · exact hcounted.inv
      · exact hinv

/-- The connection as a new receipt is handed to it. -/
def withReceipt (c : LinkConn) (now : ℚ) : LinkConn :=
  { c with receipts := c.receipts ++ [{ sentAt := now, timeout := 0 }], outstanding := c.outstanding ++ [c.receipts.length] }

theorem withReceipt_conducts : Conducts c (c.withReceipt now) := ⟨rfl, rfl, rfl, rfl, rfl, by simp [withReceipt]⟩

theorem withReceipt_pending (hinv : Inv c) (hi : i ∈ c.txReceipt) : (c.withReceipt now).receipts[i]? = c.receipts[i]? :=
  List.getElem?_append_left (hinv.pending i hi)

theorem linkConsumerSend_tracked (hn : c.noProofs = false) : c.linkConsumerSend now setting (.sent true) =
    { (c.withReceipt now).linkTrackTxReceipt now setting c.receipts.length with
      txCount := ((c.withReceipt now).linkTrackTxReceipt now setting c.receipts.length).txCount + 1
      lastOut := now } := by
  simp [linkConsumerSend, hn, withReceipt]

theorem linkConsumerSend_untracked {sending : Sending} (h : sending = .sent true → c.noProofs = true) :
    Conducts c (c.linkConsumerSend now setting sending) := by
  cases sending with
  | oversize => exact ⟨rfl, rfl, rfl, rfl, rfl, le_refl _⟩
  | threw => exact ⟨rfl, rfl, rfl, rfl, rfl, le_refl _⟩
  | sent receipt =>
    have hnot : ¬ (receipt = true ∧ (!c.noProofs) = true) := by
      rintro ⟨rfl, hn⟩
      rw [h rfl] at hn
      cases hn
    unfold linkConsumerSend
    dsimp only
    rw [if_neg hnot]
    exact ⟨rfl, rfl, rfl, rfl, rfl, le_refl _⟩

theorem linkConsumerSend_inv (hinv : Inv c) {sending : Sending} (hok : Noticed c (.send now setting sending)) :
    Inv (c.linkConsumerSend now setting sending) := by
  by_cases htracked : sending = .sent true ∧ c.noProofs = false
  · obtain ⟨rfl, hn⟩ := htracked
    have hcredit : ∀ i ∈ (c.withReceipt now).txReceipt, ∀ r ∈ (c.withReceipt now).receipts[i]?,
        InTime r (c.withReceipt now).txReceiptDeadline → false = true := by
      intro i hi r hr hin
      rw [withReceipt_pending hinv hi] at hr
      exact absurd hin (hok hn i hi r hr)
    obtain ⟨hcounted, hreceipts⟩ := bump_counted (withReceipt_conducts.inv hinv) hcredit
    rw [linkConsumerSend_tracked hn]
    refine ⟨⟨hcounted.proven, hcounted.timeouts, ?_, hcounted.credited⟩, ?_⟩
    · exact congrArg (· + 1) hcounted.all
    · rintro i ⟨⟩
      have hlt : c.receipts.length < (c.withReceipt now).receipts.length := by simp [withReceipt]
      rw [← hreceipts] at hlt
      exact hlt.trans_eq ( List.length_modify _ _ _).symm
  · refine (linkConsumerSend_untracked fun hs => ?_).inv hinv
    simpa [hs] using htracked

/-- A proof that waits to be noticed is counted against the send. -/
theorem unaccounted_of_not_noticed (c : LinkConn) (op : Op) (hinv : Inv c) (hok : ¬ Noticed c op) :
    ¬ Accounted (step c op) := by
  obtain ⟨now, setting, rfl, hn, i, hi, r, hr, hin⟩ : ∃ now setting, op = .send now setting (.sent true) ∧
      c.noProofs = false ∧ ∃ i, c.txReceipt = some i ∧ ∃ r, c.receipts[i]? = some r ∧ InTime r c.txReceiptDeadline := by
    cases op with
    | send now setting sending =>
      cases sending with
      | oversize => exact absurd trivial hok
      | threw => exact absurd trivial hok
      | sent receipt =>
        cases receipt with
        | false => exact absurd trivial hok
        | true =>
          simp only [Noticed, Classical.not_forall, not_not] at hok
          obtain ⟨hn, i, hi, r, hr, hin⟩ := hok
          exact ⟨now, setting, rfl, hn, i, hi, r, hr, hin⟩
    | _ => exact absurd trivial hok
  intro h
  have hmem : ⟨r, c.txReceiptDeadline, false⟩ ∈ (step c (.send now setting (.sent true))).settled := by
    have hr' : (c.withReceipt now).receipts[i]? = some r := (withReceipt_pending hinv hi).trans hr
    have hi' : (c.withReceipt now).txReceipt = some i := hi
    rw [step, linkConsumerSend_tracked hn]
    simp only [linkTrackTxReceipt, bump, hi', Option.bind_some, hr']
    exact List.mem_append_right _ (List.mem_singleton_self _)
  cases h.credited _ hmem hin

theorem step_inv (c : LinkConn) (op : Op) (hinv : Inv c) (hok : Noticed c op) : Inv (step c op) := by
  cases op with
  | send => exact linkConsumerSend_inv hinv hok
  | proof => exact validateProof_conducts.inv hinv
  | tick => exact linkTick_inv hinv
  | jobs => exact checkReceipts_conducts.inv hinv
  | cull => exact cullReceipt_conducts.inv hinv

theorem start_inv (noProofs : Bool) : Inv { noProofs } where
  accounted := ⟨rfl, rfl, rfl, by simp⟩
  pending i hi := by cases hi

/-- The counters account for every send in just the runs where every proof is noticed first. -/
theorem proofs_accounted_iff (noProofs : Bool) (ops : List Op) :
    Throughout step Accounted { noProofs } ops ↔ Guarded step Noticed { noProofs } ops :=
  throughout_iff step_inv (fun _ h => h.accounted) unaccounted_of_not_noticed (start_inv noProofs)

/-- Two sends, and the proof of the first between them. -/
theorem proofs_unnoticed : ¬ ∀ (noProofs : Bool) (ops : List Op), Throughout step Accounted { noProofs } ops := by
  intro h
  have hlast := (h false [.send 0 60 (.sent true), .proof 1 0, .send 2 60 (.sent true)]).last
  cases hlast.credited ⟨⟨.delivered, 0, 60, 1⟩, 60, false⟩ (by decide +kernel) ⟨rfl, by norm_num⟩

end LinkConn

end MicroReticulum.Rnsd.ProofCounters

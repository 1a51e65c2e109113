import DexArchive.Proofs.Failures
import DexArchive.Proofs.Runs
import DexArchive.Proofs.Zip.Locality

/-! What becomes of the readers that are opened. The uses of a source are written down beside the run: that it
was opened or could not be, was read, and was closed. Each operation tries once to open its source and closes
what it has opened, whatever its work comes to, so that between operations nothing is open, and within one
no more than one reader. -/

namespace DexArchive

open DexArchive.Action

variable {ε σ τ α : Type}

/-! ### Traces -/

/-- What is done with a source. -/
inductive Use where
  | refused
  | opened
  | read
  | closed
  deriving DecidableEq, Repr

/-- The uses of sources in their order, each with the number of the container whose source it is. -/
abbrev Trace : Type := List (Nat × Use)

namespace Trace

def opened (trace : Trace) : Nat := trace.countP fun u => u.2 = .opened

def closed (trace : Trace) : Nat := trace.countP fun u => u.2 = .closed

/-- How often it was tried to open a source. -/
def attempts (trace : Trace) : Nat := trace.countP fun u => u.2 = .opened ∨ u.2 = .refused

/-- The uses of the source of one container. -/
def ofContainer (trace : Trace) (i : Nat) : Trace := trace.filter fun u => u.1 = i

/-- Whatever was opened is closed, for each container, and meanwhile there was no more than one reader open
at a time. -/
structure Balanced (trace : Trace) : Prop where
  settled : ∀ i, opened (trace.ofContainer i) = closed (trace.ofContainer i)
  opened_eq : opened trace = closed trace
  inside : ∀ start, start <+: trace → closed start ≤ opened start ∧ opened start ≤ closed start + 1

/-- The uses in one operation: the source could not be opened, or it was, and was read and closed. -/
def IsVisit (i : Nat) (uses : Trace) : Prop :=
  uses = [(i, .refused)] ∨ ∃ n, uses = (i, .opened) :: (List.replicate n (i, .read) ++ [(i, .closed)])

section Counting

variable {trace trace' : Trace} {i n : Nat}

theorem opened_append (trace trace' : Trace) : opened (trace ++ trace') = opened trace + opened trace' :=
  List.countP_append

theorem closed_append (trace trace' : Trace) : closed (trace ++ trace') = closed trace + closed trace' :=
  List.countP_append

@[simp] theorem opened_replicate_read (n i : Nat) : opened (List.replicate n (i, .read)) = 0 := by
  simp [opened, List.countP_replicate]

@[simp] theorem closed_replicate_read (n i : Nat) : closed (List.replicate n (i, .read)) = 0 := by
  simp [closed, List.countP_replicate]

theorem balanced_nil : Balanced [] where
  settled i := rfl
  opened_eq := rfl
  inside start h := by
    rw [List.prefix_nil.1 h]
    exact ⟨Nat.le_refl _, Nat.zero_le _⟩

theorem Balanced.append (h : Balanced trace) (h' : Balanced trace') : Balanced (trace ++ trace') where
  settled i := by
    rw [ofContainer, List.filter_append, opened_append, closed_append]
    exact congrArg₂ (· + ·) (h.settled i) (h'.settled i)
  opened_eq := by rw [opened_append, closed_append, h.opened_eq, h'.opened_eq]
  inside start hstart := by
    rcases List.prefix_or_prefix_of_prefix hstart (List.prefix_append trace trace') with hbefore | ⟨rest, rfl⟩
    · exact h.inside start hbefore
    · have hrest := h'.inside rest ((List.prefix_append_right_inj trace).1 hstart)
      rw [opened_append, closed_append, h.opened_eq]
      omega

theorem IsVisit.fst_eq (h : IsVisit i trace) {u : Nat × Use} (hu : u ∈ trace) : u.1 = i := by
  rcases h with rfl | ⟨n, rfl⟩
  · rw [List.mem_singleton.1 hu]
  · rcases List.mem_cons.1 hu with rfl | hu
    · rfl
    · rcases List.mem_append.1 hu with hu | hu
      · rw [List.eq_of_mem_replicate hu]
      · rw [List.mem_singleton.1 hu]

theorem IsVisit.attempts_eq (h : IsVisit i trace) : attempts trace = 1 := by
  rcases h with rfl | ⟨n, rfl⟩
  · rfl
  · simp [attempts, List.countP_replicate]

@[simp] theorem opened_cons_opened (i : Nat) (trace : Trace) : opened ((i, .opened) :: trace) = opened trace + 1 :=
  List.countP_cons_of_pos rfl

@[simp] theorem closed_cons_opened (i : Nat) (trace : Trace) : closed ((i, .opened) :: trace) = closed trace :=
  List.countP_cons_of_neg Bool.false_ne_true

theorem IsVisit.opened_eq (h : IsVisit i trace) : opened trace = closed trace := by
  rcases h with rfl | ⟨n, rfl⟩
  · rfl
  · rw [opened_cons_opened, closed_cons_opened, opened_append, closed_append, opened_replicate_read,
      closed_replicate_read]
    rfl

/-- A visit that has begun holds one reader, until it is over. -/
theorem IsVisit.inside (h : IsVisit i trace) {start : Trace} (hstart : start <+: trace) :
    closed start ≤ opened start ∧ opened start ≤ closed start + 1 := by
  have hwhole := h.opened_eq
  rcases h with rfl | ⟨n, rfl⟩
  · rcases List.prefix_cons_iff.1 hstart with rfl | ⟨rest, rfl, hrest⟩
    · exact ⟨Nat.le_refl _, Nat.zero_le _⟩
    · rw [List.prefix_nil.1 hrest]
      exact ⟨Nat.le_refl _, Nat.zero_le _⟩
  · rcases List.prefix_cons_iff.1 hstart with rfl | ⟨rest, rfl, hrest⟩
    · exact ⟨Nat.le_refl _, Nat.zero_le _⟩
    · rcases List.prefix_concat_iff.1 hrest with rfl | hreads
      · omega
      · obtain ⟨-, heq⟩ := List.prefix_replicate_iff.1 hreads
        rw [heq, opened_cons_opened, closed_cons_opened, opened_replicate_read, closed_replicate_read]
        exact ⟨Nat.zero_le _, Nat.le_refl _⟩

theorem IsVisit.balanced (h : IsVisit i trace) : Balanced trace := by
  refine ⟨fun j => ?_, h.opened_eq, fun start => h.inside⟩
  by_cases hj : i = j
  · have hall : trace.ofContainer j = trace :=
      List.filter_eq_self.2 fun u hu => decide_eq_true ((h.fst_eq hu).trans hj)
    rw [hall, h.opened_eq]
  · have hnone : trace.ofContainer j = [] :=
      List.filter_eq_nil_iff.2 fun u hu heq => hj ((h.fst_eq hu).symm.trans (of_decide_eq_true heq))
    rw [hnone]
    rfl

end Counting

end Trace

/-! ### Sources that keep a trace -/

/-- A state of a source with the uses so far. -/
structure Traced (σ : Type) where
  state : σ
  trace : Trace

def Reader.traced (r : Reader σ) (i : Nat) : Reader (Traced σ) where
  size := r.size
  readAt offset length s :=
    match r.readAt offset length s.state with
    | (result, state) => (result, ⟨state, s.trace ++ [(i, .read)]⟩)
  interruptions s := r.interruptions s.state
  size_readAt_le offset length s := r.size_readAt_le offset length s.state
  interruptions_readAt offset length s := r.interruptions_readAt offset length s.state

def Source.traced (source : Source σ) (i : Nat) : Source (Traced σ) where
  location := source.location
  acquire s :=
    match source.acquire s.state with
    | (.error failure, state) => (.error failure, ⟨state, s.trace ++ [(i, .refused)]⟩)
    | (.ok reader, state) => (.ok (reader.traced i), ⟨state, s.trace ++ [(i, .opened)]⟩)
  release s := ⟨source.release s.state, s.trace ++ [(i, .closed)]⟩

theorem Source.acquire_traced_error {source : Source σ} {s s' : σ} {failure : Failure}
    (h : source.acquire s = (.error failure, s')) (i : Nat) (trace : Trace) :
    (source.traced i).acquire ⟨s, trace⟩ = (.error failure, ⟨s', trace ++ [(i, .refused)]⟩) := by
  simp only [traced, h]

theorem Source.acquire_traced_ok {source : Source σ} {s s' : σ} {reader : Reader σ}
    (h : source.acquire s = (.ok reader, s')) (i : Nat) (trace : Trace) :
    (source.traced i).acquire ⟨s, trace⟩ = (.ok (reader.traced i), ⟨s', trace ++ [(i, .opened)]⟩) := by
  simp only [traced, h]

def Session.traced (t : Session σ) (trace : Trace) : Session (Traced σ) := ⟨⟨t.source, trace⟩, t.events⟩

def Zip.Archive.traced (a : Zip.Archive σ) (i : Nat) : Zip.Archive (Traced σ) := ⟨a.reader.traced i, a.entries⟩

def Container.traced (c : Container σ) (i : Nat) : Container (Traced σ) :=
  ⟨c.id, c.source.traced i, c.opcodes, c.maxEntrySize⟩

/-- A state beside the same one with a trace to which only reads were added. -/
def Traced.Reading (i : Nat) (trace : Trace) (s : σ) (s' : Traced σ) : Prop :=
  ∃ n, s' = ⟨s, trace ++ List.replicate n (i, .read)⟩

theorem Traced.reading_refl (i : Nat) (trace : Trace) (s : σ) : Reading i trace s ⟨s, trace⟩ :=
  ⟨0, by rw [List.replicate_zero, List.append_nil]⟩

theorem Reader.matches_traced (r : Reader σ) (i : Nat) (trace : Trace) (offset length : Nat) :
    Matches (Traced.Reading i trace) (r.readAt offset length) ((r.traced i).readAt offset length) := by
  rintro s s' ⟨n, rfl⟩
  refine ⟨rfl, n + 1, ?_⟩
  rw [List.replicate_succ', ← List.append_assoc]
  rfl

/-! ### Work side by side -/

namespace Session

/-- Sessions that reported the same, with sources in related states. -/
def Related (R : σ → τ → Prop) (t : Session σ) (t' : Session τ) : Prop :=
  R t.source t'.source ∧ t.events = t'.events

variable {R : σ → τ → Prop}

theorem matches_onSource {p : Action ε σ α} {q : Action ε τ α} (h : Matches R p q) :
    Matches (Related R) (onSource p) (onSource q) := by
  rintro t t' ⟨hsource, hevents⟩
  obtain ⟨hresult, hstates⟩ := h t.source t'.source hsource
  exact ⟨hresult, hstates, hevents⟩

theorem matches_report (event : Event) :
    Matches (Related R) (report event : Action ε (Session σ) Unit) (report event) := by
  rintro t t' ⟨hsource, hevents⟩
  exact ⟨rfl, hsource, congrArg (Array.push · event) hevents⟩

end Session

namespace Container

open Session

variable {R : σ → τ → Prop} {a : Zip.Archive σ} {a' : Zip.Archive τ}

/-- A content is never read beyond the largest address. -/
theorem opensInside_addressMax (a : Zip.Archive σ) (e : Zip.Entry) : a.OpensInside e 0 addressMax := by
  intro c s s' hc
  obtain ⟨-, header, -, -, rfl⟩ := Zip.Archive.exists_of_content_ok hc
  rw [Zip.Content.range_ofEntry]
  exact ⟨Nat.zero_le _, Nat.min_le_right _ _⟩

section Work

variable (h : ∀ offset length, Matches R (a.reader.readAt offset length) (a'.reader.readAt offset length))

include h

theorem matches_isDex (e : Zip.Entry) : Matches (Related R) (isDex a e) (isDex a' e) := by
  unfold isDex isDexBy
  by_cases hdirectory : e.isDirectory
  · rw [if_pos hdirectory, if_pos hdirectory]
    exact (matches_report _).bind fun _ => matches_pure _
  · rw [if_neg hdirectory, if_neg hdirectory]
    have hcontent : Matches R (a.content e) (a'.content e) :=
      Zip.Archive.matches_content fun offset length _ _ => h offset length
    refine (matches_report _).bind fun _ => (matches_onSource hcontent).bind_of fun content t t' hc => ?_
    have hinside := opensInside_addressMax a e content _ _ (eq_of_onSource_ok hc)
    refine (matches_onSource (Zip.Archive.matches_readContent hinside (Stream.matches_sniff
      (Zip.Content.matches_read fun offset length _ _ => h offset length)))).bind fun verdict => ?_
    cases verdict with
    | ok version => exact matches_pure _
    | error reason => exact (matches_report _).bind fun _ => matches_pure _

theorem matches_dexNames (entries : List Zip.Entry) :
    Matches (Related R) (dexNames a entries) (dexNames a' entries) := by
  induction entries with
  | nil => exact matches_pure _
  | cons e rest ih => exact (matches_isDex h e).bind fun found => ih.bind fun names => matches_pure _

theorem matches_load {c : Container σ} {c' : Container τ} (hlimit : c.maxEntrySize = c'.maxEntrySize)
    (hopcodes : c.opcodes = c'.opcodes) (hid : c.id = c'.id) (e : Zip.Entry) :
    Matches (Related R) (c.load a e) (c'.load a' e) := by
  have haccept : ∀ bytes, Matches (Related R) (c.accept e bytes) (c'.accept e bytes) := by
    intro bytes
    unfold accept
    rw [hopcodes, hid]
    cases Dex.verify bytes with
    | error reason => exact matches_throw _
    | ok version => exact (matches_report _).bind fun _ => matches_pure _
  have hentry := Zip.Archive.matches_readEntry (Zip.Archive.matches_content fun offset length _ _ => h offset length)
    (opensInside_addressMax a e) fun offset length _ _ => h offset length
  have hread := (matches_onSource hentry).bind haccept
  unfold load loadBy
  rw [← hlimit]
  cases c.maxEntrySize with
  | none => exact hread
  | some limit =>
      dsimp only
      by_cases hlarge : limit < e.uncompressedSize.toNat
      · rw [if_pos hlarge, if_pos hlarge]
        exact (matches_throw _).bind fun _ => hread
      · rw [if_neg hlarge, if_neg hlarge]
        exact hread

theorem matches_lookUp {c : Container σ} {c' : Container τ} (hentries : a.entries = a'.entries)
    (hlimit : c.maxEntrySize = c'.maxEntrySize) (hopcodes : c.opcodes = c'.opcodes) (hid : c.id = c'.id)
    (name : String) : Matches (Related R) (c.lookUp name a) (c'.lookUp name a') := by
  unfold lookUp lookUpBy Zip.Archive.find?
  rw [hentries]
  cases a'.entries.find? fun e => e.name = name with
  | none => exact matches_pure _
  | some e => exact (matches_load h hlimit hopcodes hid e).bind fun f => matches_pure _

end Work

/-- Opening the archive only reads. -/
theorem matches_openDirectory (c : Container σ) (reader : Reader σ) (i : Nat) (trace : Trace) :
    Matches (Related (Traced.Reading i trace)) (c.openDirectory reader)
      ((c.traced i).openDirectory (reader.traced i)) := by
  have hread : ∀ offset length, Matches (Traced.Reading i trace) (Zip.readBytes reader offset length)
      (Zip.readBytes (reader.traced i) offset length) := fun offset length =>
    (Reader.MatchesOn.readExact (fun offset length _ _ => reader.matches_traced i trace offset length)
      (Nat.zero_le _) (Nat.le_refl _)).mapError
  have hdirectory := Zip.Archive.matches_readDirectory hread rfl
  exact (matches_onSource hdirectory).mapError.bind fun entries =>
    (matches_report _).bind fun _ => (matches_report _).bind fun _ => matches_pure _

/-- Work that only reads is one visit to the source. -/
theorem withArchive_traced (c : Container σ) (i : Nat) (work : Zip.Archive σ → Action Error (Session σ) α)
    (work' : Zip.Archive (Traced σ) → Action Error (Session (Traced σ)) α)
    (h : ∀ archive trace, Matches (Related (Traced.Reading i trace)) (work archive) (work' (archive.traced i)))
    (t : Session σ) (trace : Trace) :
    ∃ uses, (c.traced i).withArchive work' (t.traced trace) =
        ((c.withArchive work t).1, (c.withArchive work t).2.traced (trace ++ uses)) ∧
      Trace.IsVisit i uses := by
  cases hacquire : c.source.acquire t.source with
  | mk result s =>
      cases result with
      | error failure =>
          have hacquire' : onSource (c.traced i).source.acquire (t.traced trace) = _ :=
            onSource_eq (Source.acquire_traced_error hacquire i trace)
          rw [withArchive, withArchive, onSource_eq hacquire, hacquire']
          exact ⟨[(i, .refused)], rfl, .inl rfl⟩
      | ok reader =>
          have hacquire' : onSource (c.traced i).source.acquire (t.traced trace) = _ :=
            onSource_eq (Source.acquire_traced_ok hacquire i trace)
          rw [withArchive, withArchive, onSource_eq hacquire, hacquire']
          simp only [openArchive_bind]
          have hall := (c.matches_openDirectory reader i (trace ++ [(i, .opened)])).bind fun entries =>
            h ⟨reader, entries⟩ (trace ++ [(i, .opened)])
          cases hwork : (c.openDirectory reader >>= fun entries => work ⟨reader, entries⟩)
              { t with source := s } with
          | mk result t₁ =>
              obtain ⟨⟨source, events⟩, hwork', ⟨n, hsource⟩, hevents⟩ :=
                hall.exists_eq (s := ⟨s, t.events⟩) (t := ⟨⟨s, trace ++ [(i, .opened)]⟩, t.events⟩)
                  ⟨Traced.reading_refl i _ s, rfl⟩ hwork
              obtain rfl : source = _ := hsource
              obtain rfl : t₁.events = events := hevents
              refine ⟨(i, .opened) :: (List.replicate n (i, .read) ++ [(i, .closed)]), ?_, .inr ⟨n, rfl⟩⟩
              have hrun := congrArg
                (fun y => (y.1, { y.2 with source := (c.traced i).source.release y.2.source })) hwork'
              refine hrun.trans ?_
              simp only [traced, Source.traced, Session.traced, List.append_assoc, List.cons_append, List.nil_append]

section Operations

variable (c : Container σ) (i : Nat) (t : Session σ) (trace : Trace)

theorem isZip_traced :
    ∃ uses, (c.traced i).isZip (t.traced trace) = ((c.isZip t).1, (c.isZip t).2.traced (trace ++ uses)) ∧
      Trace.IsVisit i uses := by
  obtain ⟨uses, hrun, hvisit⟩ :=
    c.withArchive_traced i (fun _ => pure ()) (fun _ => pure ()) (fun _ _ => matches_pure ()) t trace
  refine ⟨uses, ?_, hvisit⟩
  rw [isZip, isZip, hrun]
  cases c.withArchive (fun _ => pure ()) t with
  | mk result t' => cases result <;> rfl

theorem dexEntryNames_traced :
    ∃ uses, (c.traced i).dexEntryNames (t.traced trace) =
        ((c.dexEntryNames t).1, (c.dexEntryNames t).2.traced (trace ++ uses)) ∧
      Trace.IsVisit i uses :=
  c.withArchive_traced i _ _
    (fun archive trace => matches_dexNames (archive.reader.matches_traced i trace) archive.entries) t trace

theorem entry_traced (name : String) :
    ∃ uses, (c.traced i).entry name (t.traced trace) =
        ((c.entry name t).1, (c.entry name t).2.traced (trace ++ uses)) ∧
      Trace.IsVisit i uses := by
  refine c.withArchive_traced i (c.lookUp name) ((c.traced i).lookUp name) (fun archive trace => ?_) t trace
  exact matches_lookUp (archive.reader.matches_traced i trace) (by rfl) (by rfl) (by rfl) (by rfl) name

end Operations

end Container

/-! ### Runs -/

/-- The operation on traced sources, if the next container is that of number `i`. -/
def Operation.traced (i : Nat) : Operation σ → Operation (Traced σ)
  | .create source opcodes maxEntrySize => .create (source.traced i) opcodes maxEntrySize
  | .isZip j => .isZip j
  | .dexEntryNames j => .dexEntryNames j
  | .entry j name => .entry j name
  | .change f => .change fun s => { s with state := f s.state }

/-- The number of the container that an operation is to work with. -/
def Operation.container? : Operation σ → Option Nat
  | .isZip i | .dexEntryNames i | .entry i _ => some i
  | .create .. | .change _ => none

namespace World

def traced (w : World σ) (trace : Trace) : World (Traced σ) where
  registry := w.registry
  containers := w.containers.mapIdx fun i c => c.traced i
  session := w.session.traced trace

def stepTraced (w : World (Traced σ)) (op : Operation σ) : World (Traced σ) :=
  w.step (op.traced w.containers.length)

def runTraced (w : World (Traced σ)) (ops : List (Operation σ)) : World (Traced σ) := ops.foldl stepTraced w

/-- The container that an operation works with, if there is one. -/
def visited? (w : World σ) (op : Operation σ) : Option Nat :=
  op.container?.filter fun i => i < w.containers.length

/-- The uses in a step: one visit to the container that is worked with, if there is one. -/
def Uses (w : World σ) (op : Operation σ) (uses : Trace) : Prop :=
  match w.visited? op with
  | none => uses = []
  | some i => Trace.IsVisit i uses

theorem workWith_traced (w : World σ) (op : Operation σ) {i : Nat} (hop : op.container? = some i)
    (work : Container σ → Session σ → Session σ)
    (work' : Container (Traced σ) → Session (Traced σ) → Session (Traced σ))
    (h : ∀ c t trace, ∃ uses, work' (c.traced i) (t.traced trace) = (work c t).traced (trace ++ uses) ∧
      Trace.IsVisit i uses) (trace : Trace) :
    ∃ uses, (w.traced trace).workWith i work' = (w.workWith i work).traced (trace ++ uses) ∧ w.Uses op uses := by
  have hget : (w.traced trace).containers[i]? = w.containers[i]?.map fun c => c.traced i :=
    List.getElem?_mapIdx
  unfold workWith Uses visited?
  rw [hget, hop]
  cases hc : w.containers[i]? with
  | none =>
      have hlength := List.getElem?_eq_none_iff.1 hc
      refine ⟨[], by rw [List.append_nil]; rfl, ?_⟩
      rw [Option.filter_some, if_neg (by simpa using hlength)]
  | some c =>
      have hlength := (List.getElem?_eq_some_iff.1 hc).1
      obtain ⟨uses, hwork, hvisit⟩ := h c w.session trace
      refine ⟨uses, ?_, ?_⟩
      · simp only [Option.map_some, traced, hwork]
      · rw [Option.filter_some, if_pos (by simpa using hlength)]
        exact hvisit

/-- A step with traced sources is the step, and its uses are added to the trace. -/
theorem step_traced (w : World σ) (op : Operation σ) (trace : Trace) :
    ∃ uses, (w.traced trace).stepTraced op = (w.step op).traced (trace ++ uses) ∧ w.Uses op uses := by
  cases op with
  | create source opcodes maxEntrySize =>
      have hlength : (w.traced trace).containers.length = w.containers.length := List.length_mapIdx
      have hcontainers : ∀ c : Container σ, (w.containers ++ [c]).mapIdx (fun i c => c.traced i) =
          (w.traced trace).containers ++ [c.traced w.containers.length] := fun c => List.mapIdx_concat
      refine ⟨[], ?_, rfl⟩
      rw [List.append_nil, stepTraced, hlength]
      exact congrArg (World.mk _ · _) (hcontainers ⟨w.registry.next, source, opcodes, maxEntrySize⟩).symm
  | isZip i =>
      refine workWith_traced w (.isZip i) rfl (fun c t => (c.isZip t).2) (fun c t => (c.isZip t).2)
        (fun c t trace => ?_) trace
      obtain ⟨uses, hrun, hvisit⟩ := c.isZip_traced i t trace
      exact ⟨uses, congrArg Prod.snd hrun, hvisit⟩
  | dexEntryNames i =>
      refine workWith_traced w (.dexEntryNames i) rfl (fun c t => (c.dexEntryNames t).2) (fun c t => (c.dexEntryNames t).2)
        (fun c t trace => ?_) trace
      obtain ⟨uses, hrun, hvisit⟩ := c.dexEntryNames_traced i t trace
      exact ⟨uses, congrArg Prod.snd hrun, hvisit⟩
  | entry i name =>
      refine workWith_traced w (.entry i name) rfl (fun c t => (c.entry name t).2) (fun c t => (c.entry name t).2)
        (fun c t trace => ?_) trace
      obtain ⟨uses, hrun, hvisit⟩ := c.entry_traced i t trace name
      exact ⟨uses, congrArg Prod.snd hrun, hvisit⟩
  | change f => exact ⟨[], by rw [List.append_nil]; rfl, rfl⟩

theorem Uses.balanced {w : World σ} {op : Operation σ} {uses : Trace} (h : w.Uses op uses) : uses.Balanced := by
  unfold Uses at h
  split at h
  · rw [h]
    exact Trace.balanced_nil
  · exact h.balanced

/-- Runs with traced sources are the runs, and leave nothing open. -/
theorem run_traced (w : World σ) (ops : List (Operation σ)) {trace : Trace} (h : trace.Balanced) :
    ∃ trace', (w.traced trace).runTraced ops = (w.run ops).traced trace' ∧ trace'.Balanced := by
  induction ops generalizing w trace with
  | nil => exact ⟨trace, rfl, h⟩
  | cons op ops ih =>
      obtain ⟨uses, hstep, huses⟩ := w.step_traced op trace
      obtain ⟨trace', hrun, hbalanced⟩ := ih (w.step op) (h.append huses.balanced)
      refine ⟨trace', ?_, hbalanced⟩
      calc
        (w.traced trace).runTraced (op :: ops) = ((w.traced trace).stepTraced op).runTraced ops := rfl
        _ = ((w.step op).run ops).traced trace' := by rw [hstep, hrun]

/-- No reader outlives the operation that opened it. In any run, over sources that may fail or be no
archives, each operation on a container tries once to open its source; before it and after it as many readers
are closed as were opened, for each container, and within it at most one more is open. -/
theorem handles_balanced (s : σ) (before : List (Operation σ)) (op : Operation σ) :
    ∃ trace uses,
      ((initial s).traced []).runTraced before = ((initial s).run before).traced trace ∧
      ((initial s).traced []).runTraced (before ++ [op]) =
        ((initial s).run (before ++ [op])).traced (trace ++ uses) ∧
      trace.Balanced ∧ (trace ++ uses).Balanced ∧
      match ((initial s).run before).visited? op with
      | none => uses = []
      | some i => uses.attempts = 1 ∧ ∀ u ∈ uses, u.1 = i := by
  obtain ⟨trace, hrun, hbalanced⟩ := (initial s).run_traced before Trace.balanced_nil
  obtain ⟨uses, hstep, huses⟩ := ((initial s).run before).step_traced op trace
  refine ⟨trace, uses, hrun, ?_, hbalanced, hbalanced.append huses.balanced, ?_⟩
  · have htraced : ((initial s).traced []).runTraced (before ++ [op]) =
        (((initial s).traced []).runTraced before).stepTraced op := List.foldl_append
    have hplain : (initial s).run (before ++ [op]) = ((initial s).run before).step op := List.foldl_append
    rw [htraced, hplain, hrun, hstep]
  · unfold Uses at huses
    cases hvisited : ((initial s).run before).visited? op with
    | none =>
        rw [hvisited] at huses
        exact huses
    | some i =>
        rw [hvisited] at huses
        exact ⟨huses.attempts_eq, fun u => huses.fst_eq⟩

end World

end DexArchive

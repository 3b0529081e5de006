import TwilightLine.Tun2socks.TcpClientRuns

/-! The markers of callbacks in progress.

A callback of lwIP must return `ERR_ABRT` exactly when the pcb was aborted while it
ran. The code has no other memory of that than the variable `badvpn__dead` of each
callback in progress, reached through `dead_aborted` and the `prev` pointers.

`Stack` is what holds of these variables: only the innermost one is ever set, it is
set to what became of the client (`status`), and the pointers lead from each callback
to the next. `History` ties them to the trace. Both are kept by every action, among
them the return of a callback, which hands its marker on to the one around it. -/
namespace TwilightLine.Tcp

open Trace

/-- What became of the client, as the innermost callback should know it. -/
def status (c : Conn) : Int := if c.cl.aborted then 1 else if c.allocated then 0 else -1

/-- Each `prev` points to the callback around. -/
def Linked : List Frame → Prop
  | [] => True
  | fr :: rest => fr.prev = rest.head?.map Frame.id ∧ Linked rest

/-- The callbacks in progress, innermost first. -/
structure Stack (frames : List Frame) (next : FrameId) (status : Int) : Prop where
  head : ∀ fr ∈ frames.head?, fr.dead = status
  tail : ∀ fr ∈ frames.tail, fr.dead = 0
  linked : Linked frames
  nodup : (frames.map Frame.id).Nodup
  below : ∀ fr ∈ frames, fr.id < next

/-- The marker of the innermost callback is written. -/
def setHead (v : Int) : List Frame → List Frame
  | [] => []
  | fr :: rest => {fr with dead := v} :: rest

@[simp]
theorem setHead_head?_id (v : Int) (frames : List Frame) :
    (setHead v frames).head?.map Frame.id = frames.head?.map Frame.id := by
  cases frames <;> rfl

@[simp]
theorem setHead_map_id (v : Int) (frames : List Frame) : (setHead v frames).map Frame.id = frames.map Frame.id := by
  cases frames <;> rfl

theorem Stack.setHead {frames : List Frame} {next : FrameId} {st st' : Int} (h : Stack frames next st) :
    Stack (setHead st' frames) next st' := by
  cases frames with
  | nil => exact ⟨nofun, nofun, trivial, .nil, nofun⟩
  | cons fr rest =>
    refine ⟨?_, h.tail, h.linked, h.nodup, ?_⟩
    · rintro _ ⟨⟩
      rfl
    · intro g hg
      rcases List.mem_cons.1 hg with rfl | hg
      · exact h.below fr (List.mem_cons_self ..)
      · exact h.below g (List.mem_cons_of_mem _ hg)

/-- A write through a pointer to the innermost callback reaches that callback only. -/
theorem map_dead_head {frames : List Frame} (hnodup : (frames.map Frame.id).Nodup) {f : FrameId} {v : Int}
    (hf : frames.head?.map Frame.id = some f) :
    frames.map (fun fr => if fr.id = f then {fr with dead := v} else fr) = Tcp.setHead v frames := by
  cases frames with
  | nil => rfl
  | cons fr rest =>
    obtain rfl : fr.id = f := by simpa using hf
    have hrest : ∀ g ∈ rest, g.id ≠ fr.id := fun g hg he => by
      have := (List.nodup_cons.1 hnodup).1
      exact this (he ▸ List.mem_map_of_mem hg)
    simp only [List.map_cons, if_true, Tcp.setHead, List.cons.injEq, true_and]
    exact (List.map_congr_left (g := id) fun g hg => if_neg (hrest g hg)).trans (List.map_id _)

theorem Stack.leave {fr : Frame} {rest : List Frame} {next : FrameId} {st : Int}
    (h : Stack (fr :: rest) next st) : Stack (Tcp.setHead st rest) next st := by
  have hrest : Stack rest next 0 :=
    ⟨fun g hg => h.tail g (List.mem_of_mem_head? hg), fun g hg => h.tail g (List.mem_of_mem_tail hg), h.linked.2,
      (List.nodup_cons.1 h.nodup).2, fun g hg => h.below g (List.mem_cons_of_mem _ hg)⟩
  exact hrest.setHead

theorem Stack.enter {frames : List Frame} {next : FrameId} (h : Stack frames next 0) :
    Stack (⟨next, 0, frames.head?.map Frame.id⟩ :: frames) (next + 1) 0 := by
  refine ⟨?_, ?_, ⟨rfl, h.linked⟩, ?_, ?_⟩
  · rintro _ ⟨⟩
    rfl
  · intro g hg
    cases frames with
    | nil => cases hg
    | cons fr rest =>
      rcases List.mem_cons.1 hg with rfl | hg
      · exact h.head g rfl
      · exact h.tail g hg
  · refine List.nodup_cons.2 ⟨fun hin => ?_, h.nodup⟩
    obtain ⟨g, hg, he⟩ := List.mem_map.1 hin
    exact absurd he (h.below g hg).ne
  · intro g hg
    rcases List.mem_cons.1 hg with rfl | hg
    · exact Nat.lt_succ_self _
    · exact (h.below g hg).trans (Nat.lt_succ_self _)

/-! ### What the trace says of callbacks -/

/-- What happened since lwIP entered the callback. -/
def since (f : FrameId) (t : List Ev) : List Ev := t.dropWhile (fun e => e != .enter f)

theorem since_append {f : FrameId} {t u : List Ev} (h : .enter f ∈ t) : since f (t ++ u) = since f t ++ u := by
  induction t with
  | nil => cases h
  | cons e t ih =>
    by_cases he : e = .enter f
    · simp [since, he]
    · have : .enter f ∈ t := (List.mem_cons.1 h).resolve_left (Ne.symm he)
      simpa [since, he] using ih this

theorem since_enter {f : FrameId} {t : List Ev} (h : .enter f ∉ t) : since f (t ++ [.enter f]) = [.enter f] := by
  have ht : ∀ e ∈ t, (e != .enter f) = true := fun e he => by
    simpa using fun hef : e = .enter f => h (hef ▸ he)
  rw [since, List.dropWhile_append_of_pos ht]
  simp

/-- What must be so when a callback is entered, returns, or has its marker written. -/
def marker (pre : List Ev) : Ev → Prop
  | .enter f => .enter f ∉ pre
  | .ret f err => .enter f ∈ pre ∧ (∀ err', .ret f err' ∉ pre) ∧ (err = .abrt ↔ .lwip .abort ∈ since f pre)
  | .deadWrite f _ => .enter f ∈ pre ∧ ∀ err, .ret f err ∉ pre
  | _ => True

/-- How the callbacks in progress show in the trace. -/
structure History (ids : List FrameId) (next : FrameId) (aborted : Bool) (t : List Ev) : Prop where
  entered : ∀ f ∈ ids, .enter f ∈ t
  running : ∀ f ∈ ids, ∀ err, .ret f err ∉ t
  during : ∀ f ∈ ids, .lwip .abort ∈ since f t ↔ aborted = true
  fresh : ∀ f, .enter f ∈ t → f < next
  returned : ∀ f err, .ret f err ∈ t → .enter f ∈ t
  ordered : Always marker t

/-- The entries that have nothing to do with callbacks. -/
def Ev.plain : Ev → Bool
  | .enter _ | .ret .. | .deadWrite .. | .lwip .abort => false
  | _ => true

theorem plain_quiet {c : LwipCall} (hc : c.quiet) : (Ev.lwip c).plain = true := by
  cases c <;> first | rfl | cases hc

section History

variable {ids : List FrameId} {next : FrameId} {aborted : Bool} {t : List Ev} {f : FrameId}

theorem History.plain (h : History ids next aborted t) {e : Ev} (he : e.plain) :
    History ids next aborted (t ++ [e]) := by
  have hne : ∀ x : Ev, x.plain = false → x ≠ e := by
    rintro x hx rfl
    exact absurd (hx.symm.trans he) nofun
  refine ⟨fun f hf => by simp [h.entered f hf], fun f hf err => ?_, fun f hf => ?_, fun f hf => ?_,
    fun f err hf => ?_, ?_⟩
  · simp [h.running f hf err, hne (.ret f err) rfl]
  · rw [since_append (h.entered f hf)]
    simpa [hne (.lwip .abort) rfl] using h.during f hf
  · exact h.fresh f (by simpa [hne (.enter f) rfl] using hf)
  · simpa using .inl (h.returned f err (by simpa [hne (.ret f err) rfl] using hf))
  · refine always_concat.2 ⟨h.ordered, ?_⟩
    cases e <;> trivial

theorem History.abort (h : History ids next aborted t) : History ids next true (t ++ [.lwip .abort]) := by
  refine ⟨fun f hf => by simp [h.entered f hf], fun f hf err => by simp [h.running f hf err], fun f hf => ?_,
    fun f hf => h.fresh f (by simpa using hf), fun f err hf => ?_, always_concat.2 ⟨h.ordered, trivial⟩⟩
  · simp [since_append (h.entered f hf)]
  · simpa using h.returned f err (by simpa using hf)

theorem History.deadWrite (h : History ids next aborted t) (hf : f ∈ ids) (v : Int) :
    History ids next aborted (t ++ [.deadWrite f v]) := by
  refine ⟨fun f hf => by simp [h.entered f hf], fun f hf err => by simp [h.running f hf err], fun f hf => ?_,
    fun f hf => h.fresh f (by simpa using hf), fun f err hf => ?_,
    always_concat.2 ⟨h.ordered, h.entered f hf, h.running f hf⟩⟩
  · simpa [since_append (h.entered f hf)] using h.during f hf
  · simpa using h.returned f err (by simpa using hf)

theorem History.enter (h : History ids next false t) : History (next :: ids) (next + 1) false (t ++ [.enter next]) := by
  have hnext : .enter next ∉ t := fun hin => (h.fresh next hin).false
  refine ⟨fun f hf => ?_, fun f hf err => ?_, fun f hf => ?_, fun f hf => ?_, fun f err hf => ?_,
    always_concat.2 ⟨h.ordered, hnext⟩⟩
  · rcases List.mem_cons.1 hf with rfl | hf
    · simp
    · simp [h.entered f hf]
  · rcases List.mem_cons.1 hf with rfl | hf
    · simpa using fun hin => hnext (h.returned f err hin)
    · simp [h.running f hf err]
  · rcases List.mem_cons.1 hf with rfl | hf
    · simp [since_enter hnext]
    · simpa [since_append (h.entered f hf)] using h.during f hf
  · have hor : .enter f ∈ t ∨ f = next := by simpa using hf
    rcases hor with hin | rfl
    · exact (h.fresh f hin).trans (Nat.lt_succ_self _)
    · exact Nat.lt_succ_self _
  · simpa using .inl (h.returned f err (by simpa using hf))

/-- The innermost callback returns what the history asks for. -/
theorem History.leave (h : History (f :: ids) next aborted t) (hnot : f ∉ ids) {err : Err}
    (herr : err = .abrt ↔ aborted = true) : History ids next aborted (t ++ [.ret f err]) := by
  have hself := List.mem_cons_self (a := f) (l := ids)
  have hmem : ∀ g ∈ ids, g ∈ f :: ids := fun g hg => List.mem_cons_of_mem _ hg
  refine ⟨fun g hg => by simp [h.entered g (hmem g hg)], fun g hg err' => ?_, fun g hg => ?_,
    fun g hg => h.fresh g (by simpa using hg), fun g err' hg => ?_, always_concat.2 ⟨h.ordered, ?_⟩⟩
  · have hne : g ≠ f := fun he => hnot (he ▸ hg)
    simp [h.running g (hmem g hg) err', hne]
  · simpa [since_append (h.entered g (hmem g hg))] using h.during g (hmem g hg)
  · have hor : .ret g err' ∈ t ∨ g = f ∧ err' = err := by simpa using hg
    rcases hor with hin | ⟨rfl, -⟩
    · simpa using h.returned g err' hin
    · simpa using h.entered g hself
  · exact ⟨h.entered f hself, h.running f hself, herr.trans (h.during f hself).symm⟩

end History

/-- The client's callbacks, their markers and its trace. -/
structure Marked (c : Conn) : Prop where
  stack : Stack c.frames c.nextFrame (status c)
  pointer : c.allocated = true → c.cl.aborted = false → c.cl.deadAborted = c.frames.head?.map Frame.id
  history : History (c.frames.map Frame.id) c.nextFrame c.cl.aborted c.trace

/-! ### Actions -/

theorem writeDead_innermost {w : World} {ptr : Option FrameId} {v : Int} (hnodup : (w.frames.map Frame.id).Nodup)
    (hptr : ptr = w.frames.head?.map Frame.id) : (writeDead w ptr v).frames = setHead v w.frames := by
  subst hptr
  cases hfr : w.frames with
  | nil => simp [writeDead, hfr, setHead]
  | cons fr rest =>
    have := map_dead_head (v := v) hnodup (show w.frames.head?.map Frame.id = some fr.id by simp [hfr])
    simpa [writeDead, hfr, World.log] using this

theorem History.writeDead {ids : List FrameId} {next : FrameId} {aborted : Bool} {w : World}
    (h : History ids next aborted w.trace) {ptr : Option FrameId} (hptr : ∀ f ∈ ptr, f ∈ ids) (v : Int) :
    History ids next aborted (writeDead w ptr v).trace := by
  cases ptr with
  | none => exact h
  | some f => exact h.deadWrite (hptr f rfl) v

theorem head?_id_mem {frames : List Frame} : ∀ f ∈ frames.head?.map Frame.id, f ∈ frames.map Frame.id := by
  cases frames with
  | nil => nofun
  | cons fr rest =>
    rintro _ ⟨⟩
    exact List.mem_cons_self ..

/-- The innermost marker is brought up to date. -/
theorem Marked.of_writeDead {w : World} {st : Int} (hstack : Stack w.frames w.nextFrame st)
    (hpointer : w.allocated = true → w.cl.aborted = false → w.cl.deadAborted = w.frames.head?.map Frame.id)
    (hhistory : History (w.frames.map Frame.id) w.nextFrame w.cl.aborted w.trace)
    {ptr : Option FrameId} (hptr : ptr = w.frames.head?.map Frame.id) {v : Int} (hv : v = status w.toConn) :
    Marked (writeDead w ptr v).toConn := by
  have hframes := writeDead_innermost (v := v) hstack.nodup hptr
  refine ⟨?_, fun hal hnot => ?_, ?_⟩
  · rw [hframes, show status (writeDead w ptr v).toConn = v by rw [hv]; simp [status]]
    simpa using hstack.setHead
  · rw [hframes, setHead_head?_id, writeDead_cl]
    exact hpointer (by simpa using hal) (by simpa using hnot)
  · rw [hframes, setHead_map_id, writeDead_nextFrame, writeDead_cl]
    exact hhistory.writeDead (hptr ▸ head?_id_mem) v

theorem Marked.plain {c : Conn} (h : Marked c) {e : Ev} (he : e.plain) : Marked {c with trace := c.trace ++ [e]} :=
  ⟨h.stack, h.pointer, h.history.plain he⟩

theorem Marked.abort {w : World} (h : Marked w.toConn) (hnot : w.cl.aborted = false) (hal : w.allocated = true) :
    Marked (clientAbortPcb w).toConn := by
  simp only [clientAbortPcb, assert_not hnot]
  exact .of_writeDead (w := {tcpAbort w with cl := {w.cl with aborted := true}}) h.stack (fun _ => by rintro ⟨⟩)
    h.history.abort (h.pointer hal hnot) rfl

theorem Marked.dealloc {w : World} (h : Marked w.toConn) (hc : w.cl.clientClosed = true)
    (hs : w.cl.socksClosed = true) (hal : w.allocated = true) (hnum : 0 < w.numClients) :
    Marked (clientDealloc w).toConn := by
  simp only [clientDealloc, assert_of hc, assert_of hs, assert_decide hnum]
  split
  · next hab =>
    have hab : w.cl.aborted = true := hab
    have hst : status {w.toConn with allocated := false} = status w.toConn := by simp [status, hab]
    exact ⟨hst ▸ h.stack, by rintro ⟨⟩, h.history.plain rfl⟩
  · next hab =>
    have hnot : w.cl.aborted = false := Bool.eq_false_iff.2 hab
    have hmarked : Marked (writeDead {w with allocated := false} w.cl.deadAborted (-1)).toConn :=
      .of_writeDead (w := {w with allocated := false}) h.stack (by rintro ⟨⟩) h.history (h.pointer hal hnot)
        (by simp [status, hnot])
    have := hmarked.plain (e := .dealloc) rfl
    cases hptr : w.cl.deadAborted <;> simpa [hptr, writeDead, World.log] using this

theorem Marked.enter {w : World} (h : Marked w.toConn) (hnot : w.cl.aborted = false) (hal : w.allocated = true) :
    Marked (callbackEnter w).toConn := by
  have hst : status w.toConn = 0 := by simp [status, hnot, hal]
  refine ⟨?_, fun _ _ => rfl, ?_⟩
  · rw [show status (callbackEnter w).toConn = 0 by simp [status, callbackEnter, World.log, hnot, hal]]
    have hstack := (hst ▸ h.stack).enter
    rwa [← h.pointer hal hnot] at hstack
  · have hhistory := (hnot ▸ h.history).enter
    show History _ _ w.cl.aborted _
    rwa [hnot]

/-- A callback returns, with `dead_aborted` leading to the one around if the client is still there. -/
theorem Marked.leave {w : World} (h : Marked w.toConn) {fr : Frame} {rest : List Frame}
    (hfr : w.frames = fr :: rest) {err : Err} (herr : err = .abrt ↔ w.cl.aborted = true) :
    Marked ((deadLeave w fr rest).log (.ret fr.id err)).toConn := by
  obtain ⟨hstack, -, hhistory⟩ := h
  simp only [hfr] at hstack hhistory
  have hdead : fr.dead = status w.toConn := hstack.head fr rfl
  have hprev : fr.prev = rest.head?.map Frame.id := hstack.linked.1
  obtain ⟨hnot, hnodup⟩ := List.nodup_cons.1 hstack.nodup
  -- the world just before the marker is handed on
  obtain ⟨w₁, hw₁, hframes, hptr, hrest⟩ : ∃ w₁ : World, deadLeave w fr rest = writeDead w₁ fr.prev fr.dead ∧
      w₁.frames = rest ∧ (fr.dead = 0 → w₁.cl.deadAborted = fr.prev) ∧
      (w₁.trace = w.trace ∧ w₁.nextFrame = w.nextFrame ∧ w₁.allocated = w.allocated ∧
        w₁.cl.aborted = w.cl.aborted) := by
    refine ⟨_, rfl, rfl, fun h₀ => ?_, ?_⟩
    · rw [if_pos h₀]
    · split <;> exact ⟨rfl, rfl, rfl, rfl⟩
  obtain ⟨htrace, hnext, hal, hab⟩ := hrest
  have hst : status (writeDead w₁ fr.prev fr.dead).toConn = fr.dead := by
    rw [hdead]
    simp [status, hal, hab]
  have hframes' : (writeDead w₁ fr.prev fr.dead).frames = setHead fr.dead rest := by
    rw [writeDead_innermost (by rw [hframes]; exact hnodup) (by rw [hframes]; exact hprev), hframes]
  rw [hw₁]
  refine ⟨?_, fun ha hna => ?_, ?_⟩
  · show Stack (writeDead w₁ fr.prev fr.dead).frames _ (status (writeDead w₁ fr.prev fr.dead).toConn)
    rw [hframes', hst]
    simpa [World.log, hnext] using (hdead ▸ hstack.leave)
  · show (writeDead w₁ fr.prev fr.dead).cl.deadAborted = (writeDead w₁ fr.prev fr.dead).frames.head?.map Frame.id
    have h₀ : fr.dead = 0 := by
      have ha : w₁.allocated = true := by simpa [World.log] using ha
      have hna : w₁.cl.aborted = false := by simpa [World.log] using hna
      rw [← hst]
      simp [status, ha, hna]
    rw [hframes', setHead_head?_id, writeDead_cl, hptr h₀, hprev]
  · show History ((writeDead w₁ fr.prev fr.dead).frames.map Frame.id) (writeDead w₁ fr.prev fr.dead).nextFrame
      (writeDead w₁ fr.prev fr.dead).cl.aborted ((writeDead w₁ fr.prev fr.dead).trace ++ [.ret fr.id err])
    rw [hframes', setHead_map_id, writeDead_nextFrame, writeDead_cl, hnext, hab]
    refine History.leave (f := fr.id) ?_ hnot herr
    rw [← htrace] at hhistory
    exact hhistory.writeDead (fun f hf => List.mem_cons_of_mem _ (head?_id_mem f (hprev ▸ hf))) fr.dead

/-- Every action keeps the markers in order. -/
theorem Act.marked {w w' : World} (h : Act w w') (hm : Marked w.toConn) : Marked w'.toConn := by
  cases h with
  | @fields cl pcb socks h =>
    have hst : status {w.toConn with cl, pcb, socks} = status w.toConn := by simp [status, h.aborted]
    refine ⟨hst ▸ hm.stack, fun hal hnot => ?_, ?_⟩
    · exact h.deadAborted.trans (hm.pointer hal (h.aborted ▸ hnot))
    · show History _ _ cl.aborted _
      rw [h.aborted]
      exact hm.history
  | lwip hopen hc => exact ⟨hm.stack, hm.pointer, hm.history.plain (plain_quiet hc)⟩
  | close hopen hdone => exact ⟨hm.stack, hm.pointer, hm.history.plain rfl⟩
  | abort hopen hnot hal => exact hm.abort hnot hal
  | closeClient hopen hal => exact ⟨hm.stack, hm.pointer, hm.history.plain rfl⟩
  | closeSocks hopen hal hmay => exact ⟨hm.stack, hm.pointer, hm.history.plain rfl⟩
  | socksFailed => exact ⟨hm.stack, hm.pointer, hm.history.plain rfl⟩
  | murdered => exact ⟨hm.stack, hm.pointer, hm.history.plain rfl⟩
  | dealloc hc hs hal hnum => exact hm.dealloc hc hs hal hnum
  | enter hopen hnot hal => exact hm.enter hnot hal
  | ret =>
    unfold callbackReturn
    split
    · exact hm
    · next fr rest hfr =>
      refine hm.leave hfr ?_
      have hdead : fr.dead = status w.toConn := hm.stack.head fr (by rw [hfr]; rfl)
      rw [hdead, status]
      cases w.cl.aborted <;> cases w.allocated <;> decide
  | accept hopen hfit => exact ⟨hm.stack, hm.pointer, hm.history.plain rfl⟩
  | @refuse n fr rest hopen hnot hal hfit hfr =>
    have hm' : Marked (w.log (.noBuffer n)).toConn := ⟨hm.stack, hm.pointer, hm.history.plain rfl⟩
    exact hm'.leave hfr (by simp [World.log, hnot])
  | sent hle hw' =>
    subst hw'
    split
    · exact ⟨hm.stack, hm.pointer, hm.history.plain rfl⟩
    · exact ⟨hm.stack, hm.pointer, (hm.history.plain rfl).plain rfl⟩
  | socks hopen hrecv => exact ⟨hm.stack, hm.pointer, hm.history.plain rfl⟩
  | load hopen hempty hdata => exact ⟨hm.stack, hm.pointer, hm.history.plain rfl⟩
  | drop hclosed => exact ⟨hm.stack, hm.pointer, hm.history.plain rfl⟩
  | write hopen hused hle => exact ⟨hm.stack, hm.pointer, hm.history.plain rfl⟩
  | acked hle => exact ⟨hm.stack, hm.pointer, hm.history.plain rfl⟩

theorem Reachable.marked {s : Sys} (h : Reachable s) (i : Nat) : Marked (s.conns i) := by
  refine conn_invariant ?_ ?_ ?_ (fun _ _ => Act.marked) h i
  · exact ⟨⟨by simp, by simp, trivial, .nil, by simp⟩, by rintro ⟨⟩, ⟨by simp, by simp, by simp, by simp, by simp, always_nil⟩⟩
  · refine ⟨⟨by simp [failedConn], by simp [failedConn], trivial, .nil, by simp [failedConn]⟩, by rintro ⟨⟩,
      ⟨by simp [failedConn], by simp [failedConn], by simp [failedConn], by simp [failedConn], by simp [failedConn], ?_⟩⟩
    · rw [always_iff_from]
      simp [failedConn, marker, since]
  · refine ⟨⟨?_, by simp [acceptedConn], ⟨rfl, trivial⟩, by decide, ?_⟩, fun _ _ => rfl, ⟨?_, ?_, ?_, ?_, ?_, ?_⟩⟩
    · rintro _ ⟨⟩
      rfl
    · simp [acceptedConn]
    · simp [acceptedConn]
    · simp [acceptedConn]
    · simp [acceptedConn, since]
    · simp [acceptedConn]
    · simp [acceptedConn]
    · rw [always_iff_from]
      simp [acceptedConn, marker]

/-- **What callbacks return.** A callback returns once, and returns `ERR_ABRT` exactly if its pcb was
aborted since it was entered; and no marker is written once its callback has returned. -/
theorem callbacks_report_abort {s : Sys} (h : Reachable s) (i : Nat) :
    Always (fun pre e => ∀ f err, e = .ret f err →
      .enter f ∈ pre ∧ (∀ err', .ret f err' ∉ pre) ∧ (err = .abrt ↔ .lwip .abort ∈ since f pre)) (s.conns i).trace ∧
    Always (fun pre e => ∀ f v, e = .deadWrite f v → .enter f ∈ pre ∧ ∀ err, .ret f err ∉ pre)
      (s.conns i).trace := by
  have hordered := (h.marked i).history.ordered
  constructor
  · refine hordered.mono fun pre e he f err hef => ?_
    subst hef
    exact he
  · refine hordered.mono fun pre e he f v hef => ?_
    subst hef
    exact he

/-- A client that is aborted and deallocated while `listener_accept_func` runs its jobs. -/
theorem callbacks_report_abort_sample : ∃ s,
    Run.run sysStep {} [.accept true, .client 0 .murder, .client 0 .ret] = some s ∧
    (s.conns 0).trace.getLast? = some (.ret 0 .abrt) ∧
    Always (fun pre e => ∀ f v, e = .deadWrite f v → .enter f ∈ pre ∧ ∀ err, .ret f err ∉ pre) (s.conns 0).trace :=
  ⟨_, rfl, rfl, (callbacks_report_abort ⟨[.accept true, .client 0 .murder, .client 0 .ret], rfl⟩ 0).2⟩

end TwilightLine.Tcp

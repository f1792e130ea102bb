import VueSfc.Proofs.Run.Growth
import VueSfc.Proofs.Run.Settled

/-!
# Writing the same components again

The writes of a plan are carried out once more on the tree that they have left. Every directory that
a write needs stands by then, and every file that was in its way still is, so it ends as it did the
first time. The one exception is a write that met a file behind a missing directory: what it is told
is another fault once the directory stands. Only the first write of a run can meet that, since all
later ones go through the directories that the first one has made.
-/

namespace VueSfc

open VueSfc.Path FileTree Write

variable {t u v : FileTree}

namespace Write

/-! ## One write -/

section

variable {w : Write} (hw : w.place ≠ []) (hk : Keeps (w.perform t).1 v)
include hw hk

/-- What a write reaches is a directory ever after. -/
theorem directory_again {p : Place} (hp : p ∈ t.reach w.way) : v.entryAt? p = some .directory :=
  hk.directory (entryAt?_perform_of_mem_reach hw hp)

/-- The way of a write is barred by the same file ever after. -/
theorem way_again : v.reach w.way = t.reach w.way ∧ v.barred w.way = t.barred w.way := by
  refine reach_eq_of_agree (fun p hp => ?_) fun p hp => hk.file (holdsFile_perform hw hp)
  rw [holdsFile, directory_again hw hk hp]

/-- A write fits again where it fitted. -/
theorem fits_again : w.Fits v ↔ w.Fits t := by
  obtain ⟨hr, hb⟩ := way_again hw hk
  constructor
  · intro hf
    obtain ⟨hbar, hd, -⟩ := (fits_iff w v).1 hf
    refine (fits_iff w t).2 ⟨hb ▸ hbar, fun he => hd ?_, fun hm => hd ?_⟩
    · exact hk.directory (entryAt?_perform_directory hw he)
    · exact directory_again hw hk hm.2
  · intro hf
    have hfile : v.holdsFile w.place = true := by
      apply hk.file
      rw [holdsFile, entryAt?_perform hw, if_pos ⟨hf, rfl⟩]
    have hnd : v.entryAt? w.place ≠ some .directory := by
      intro hd
      rw [holdsFile, hd] at hfile
      contradiction
    have hbar := ((fits_iff w t).1 hf).1
    exact (fits_iff w v).2 ⟨hb.trans hbar, hnd, fun hm => entryAt?_ne_none hfile hm.1⟩

/-- A write puts its file again, and changes nothing else. -/
theorem entryAt?_again (q : Place) :
    (w.perform v).1.entryAt? q =
      if w.Fits t ∧ q = w.place then some (.file w.content) else v.entryAt? q := by
  have hmade : ¬ (v.entryAt? q = none ∧ q ∈ v.reach w.way) := by
    rintro ⟨hn, hq⟩
    rw [(way_again hw hk).1] at hq
    rw [directory_again hw hk hq] at hn
    contradiction
  rw [entryAt?_perform hw, if_neg hmade]
  simp only [fits_again hw hk]

/-- The fault of a write is the same again if it was not misled. -/
theorem fault_again (hm : ¬ w.IsMisled t) : (w.perform v).2 = (w.perform t).2 := by
  obtain ⟨hr, hb⟩ := way_again hw hk
  have hway : (v.prepare w.way).2 = (t.prepare w.way).2 := by
    rw [prepare_fault, prepare_fault, hr, hb]
    by_cases hnil : t.barred w.way = []
    · rw [if_pos hnil, if_pos hnil]
    · have hpos := List.length_pos_iff.2 hnil
      by_cases hone : (t.barred w.way).length = 1
      · rw [if_neg hnil, if_neg hnil, if_pos (.inl hone), if_pos (.inl hone)]
      · have hv : ¬ ∃ p ∈ t.reach w.way, v.entryAt? p = none := by
          rintro ⟨p, hp, he⟩
          rw [directory_again hw hk hp] at he
          contradiction
        have ht : ¬ ∃ p ∈ t.reach w.way, t.entryAt? p = none := fun h => hm ⟨by omega, h⟩
        simp only [hone, hv, ht]
  rw [perform_eq, perform_eq w t, hway]
  by_cases hf : w.Fits t
  · rw [if_pos hf, if_pos ((fits_again hw hk).2 hf)]
  · rw [if_neg hf, if_neg (mt (fits_again hw hk).1 hf)]

/-- A write that was misled fails in another way again. -/
theorem fault_again_of_isMisled (hm : w.IsMisled t) :
    (w.perform t).2 = some .exists ∧ (w.perform v).2 = some .notDirectory := by
  obtain ⟨hlong, hmissing⟩ := hm
  obtain ⟨hr, hb⟩ := way_again hw hk
  have hnil : t.barred w.way ≠ [] := by
    intro he
    simp [he] at hlong
  have hnot : ¬ w.Fits t := fun hf => hnil ((fits_iff w t).1 hf).1
  have hnone : ¬ ((t.barred w.way).length = 1 ∨ ∃ p ∈ t.reach w.way, v.entryAt? p = none) := by
    rintro (hl | ⟨p, hp, he⟩)
    · omega
    · rw [directory_again hw hk hp] at he
      contradiction
  constructor
  · rw [perform_eq, if_neg hnot, prepare_fault, if_neg hnil, if_pos (.inr hmissing)]
    rfl
  · rw [perform_eq, if_neg (mt (fits_again hw hk).1 hnot), prepare_fault, hr, hb, if_neg hnil,
      if_neg hnone]
    rfl

end

end Write

/-! ## All writes -/

/-- A tree on which writes are carried out again, while the first time they have led to one tree so
far and to another one in the end. It is the one in the end, but for files that hold what they held
the first time so far. -/
structure Redoing (u t v : FileTree) : Prop where
  /-- The tree is sound. -/
  sound : v.IsSound
  /-- The working directory is the same. -/
  working : v.workingDirectory = u.workingDirectory
  /-- Each place is as in the end, or it is a file in the end and as it was so far. -/
  entry : ∀ q, v.entryAt? q = u.entryAt? q ∨
    v.holdsFile q = true ∧ u.holdsFile q = true ∧ v.entryAt? q = t.entryAt? q

/-- At first the tree is the one in the end. -/
theorem Redoing.start (hu : u.IsSound) (t : FileTree) : Redoing u t u :=
  ⟨hu, rfl, fun _ => .inl rfl⟩

/-- When all writes have been carried out again, the tree is the one in the end. -/
theorem Redoing.eq (h : Redoing u u v) (hu : u.IsSound) : v = u := by
  refine h.sound.eq_of_entryAt?_eq hu h.working fun q => ?_
  rcases h.entry q with he | ⟨-, -, he⟩
  · exact he
  · exact he

/-- Whatever is kept in the end is kept. -/
theorem Redoing.keeps (h : Redoing u t v) {t' : FileTree} (hk : Keeps t' u) : Keeps t' v where
  working := h.working.trans hk.working
  directory {q} hq := by
    have hd := hk.directory hq
    rcases h.entry q with he | ⟨-, hf, -⟩
    · rw [he, hd]
    · rw [holdsFile, hd] at hf
      contradiction
  file {q} hq := by
    rcases h.entry q with he | ⟨hf, -⟩
    · rw [holdsFile, he]
      exact hk.file hq
    · exact hf

/-- One write is carried out again. -/
theorem Redoing.perform (h : Redoing u t v) {w : Write} (hw : w.IsPlaced t)
    (hk : Keeps (w.perform t).1 u) : Redoing u (w.perform t).1 (w.perform v).1 := by
  have hkv := h.keeps hk
  have hworking : v.workingDirectory = t.workingDirectory :=
    hkv.working.trans (workingDirectory_perform w t)
  have hplaced : w.IsPlaced v := ⟨hworking ▸ hw.walk, hw.ne_nil, hworking ▸ hw.parent⟩
  refine ⟨hplaced.isSound_perform h.sound, (workingDirectory_perform w v).trans h.working,
    fun q => ?_⟩
  have hagain := entryAt?_again hw.ne_nil hkv q
  by_cases hput : w.Fits t ∧ q = w.place
  · -- The file is put, as it was the first time.
    have hfirst : (w.perform t).1.entryAt? q = some (.file w.content) := by
      rw [entryAt?_perform hw.ne_nil, if_pos hput]
    rw [if_pos hput] at hagain
    refine .inr ⟨by rw [holdsFile, hagain], hk.file (by rw [holdsFile, hfirst]), ?_⟩
    rw [hagain, hfirst]
  · rw [if_neg hput] at hagain
    rcases h.entry q with he | ⟨hf, hfu, he⟩
    · exact .inl (hagain.trans he)
    · -- A file that is not put is left as it was, both times.
      have hne : ¬ (t.entryAt? q = none ∧ q ∈ t.reach w.way) := by
        rintro ⟨hn, -⟩
        exact entryAt?_ne_none hf (he.trans hn)
      refine .inr ⟨by rw [holdsFile, hagain]; exact hf, hfu, ?_⟩
      rw [hagain, he, entryAt?_perform hw.ne_nil, if_neg hput, if_neg hne]

variable {x : Planned} {plan : List Planned}

/-- What is written for a planned file depends on the working directory only. -/
theorem writeOf?_congr (h : v.workingDirectory = t.workingDirectory) (x : Planned) :
    writeOf? v x = writeOf? t x := by
  unfold writeOf?
  split
  · rw [ofTarget_congr h]
  · rfl

/-- One planned file is delivered again. It gets the same report, unless its write was misled. -/
theorem Redoing.after_deliver (h : Redoing u t v) (ht : t.IsSound)
    (hplan : HasComponentTargets plan) (hx : x ∈ plan) (hk : Keeps (deliver t x.1 x.2).tree u) :
    Redoing u (deliver t x.1 x.2).tree (deliver v x.1 x.2).tree ∧
      ((∀ w, writeOf? t x = some w → ¬ w.IsMisled t) →
        (deliver v x.1 x.2).report = (deliver t x.1 x.2).report) ∧
      ∀ w, writeOf? t x = some w → w.IsMisled t → ∃ report : FileReport,
        report.status = .writeFailed ∧
        (deliver t x.1 x.2).report = { report with message := some FileFault.exists.message } ∧
        (deliver v x.1 x.2).report =
          { report with message := some FileFault.notDirectory.message } := by
  cases hw : writeOf? t x with
  | none =>
    obtain ⟨htree, hreport⟩ := deliver_of_writeOf?_eq_none hw t
    obtain ⟨htree', hreport'⟩ := deliver_of_writeOf?_eq_none hw v
    rw [htree, htree', hreport, hreport']
    exact ⟨h, fun _ => rfl, by rintro _ ⟨⟩⟩
  | some w =>
    obtain ⟨c, target, hc, htarget, rfl⟩ := writeOf?_eq_some_iff.1 hw
    have hends := hplan.hasFileTargets x hx target htarget
    obtain ⟨htree, hreport⟩ := deliver_path ht hc hends
    obtain ⟨htree', hreport'⟩ := deliver_path h.sound hc hends
    rw [← htarget] at htree hreport htree' hreport'
    rw [htree] at hk
    have hplaced := isPlaced_ofTarget (t := t) hends c.output
    have hkv := h.keeps hk
    have hworking : v.workingDirectory = t.workingDirectory :=
      hkv.working.trans (workingDirectory_perform _ t)
    rw [ofTarget_congr hworking] at htree' hreport'
    rw [htree, htree', hreport, hreport']
    refine ⟨h.perform hplaced hk, fun hm => ?_, ?_⟩
    · rw [fault_again hplaced.ne_nil hkv (hm _ rfl)]
    · rintro w ⟨⟩ hm
      obtain ⟨hf, hf'⟩ := fault_again_of_isMisled hplaced.ne_nil hkv hm
      rw [hf, hf']
      exact ⟨failedReport x.1.input.path .writeFailed [], rfl, rfl, rfl⟩

/-- A plan is delivered again. If no write is ever misled, all reports are the same. -/
theorem Redoing.after_deliverAll (h : Redoing u t v) (ht : t.IsSound)
    (hplan : HasComponentTargets plan) (hu : (deliverAll t plan).tree = u)
    (hm : ∀ t', t'.IsSound → Keeps t t' → ∀ x ∈ plan, ∀ w, writeOf? t' x = some w →
      ¬ w.IsMisled t') :
    (deliverAll v plan).tree = u ∧ (deliverAll v plan).reports = (deliverAll t plan).reports := by
  induction plan generalizing t v with
  | nil =>
    obtain rfl : t = u := hu
    exact ⟨h.eq ht, rfl⟩
  | cons x plan ih =>
    have hrest : HasComponentTargets plan := fun y hy => hplan y (List.mem_cons_of_mem _ hy)
    obtain ⟨hsound, hgrows⟩ := grows_deliver ht hplan List.mem_cons_self
    have hkeeps : Keeps (deliver t x.1 x.2).tree u := by
      rw [← hu]
      exact (grows_deliverAll hsound hrest).2.toKeeps
    obtain ⟨hnext, hsame, -⟩ := h.after_deliver ht hplan List.mem_cons_self hkeeps
    obtain ⟨htree, hreports⟩ := ih hnext hsound hrest hu fun t' ht' hk y hy =>
      hm t' ht' (hgrows.toKeeps.trans hk) y (List.mem_cons_of_mem _ hy)
    have hreport := hsame (hm t ht (Keeps.refl t) x List.mem_cons_self)
    refine ⟨htree, ?_⟩
    change (deliver v x.1 x.2).report :: _ = (deliver t x.1 x.2).report :: _
    rw [hreport, hreports]

/-! ## Misled writes -/

/-- What is reached on a way is reached before more files were there. -/
theorem FileTree.Keeps.reach_prefix (hk : Keeps t v) (ps qs : List Place) :
    v.reach ps <+: t.reach (ps ++ qs) := by
  induction ps with
  | nil => exact List.nil_prefix
  | cons p ps ih =>
    cases hv : v.holdsFile p with
    | true =>
      rw [reach_cons_file hv]
      exact List.nil_prefix
    | false =>
      have htp : t.holdsFile p = false := by
        rw [← Bool.not_eq_true]
        intro hf
        rw [hk.file hf] at hv
        contradiction
      rw [List.cons_append, reach_cons hv, reach_cons htp]
      exact List.prefix_cons_inj p |>.2 ih

/-- After the first write of a run no other one is misled. -/
theorem not_isMisled_after (ht : t.IsSound) (hn : t.HasNames) {s : RunSettings}
    {paths : List Text} {x y : Planned} {a b : Write} (hx : x ∈ planOf t s paths)
    (hy : y ∈ planOf t s paths) (ha : writeOf? t x = some a) (hv : v.IsSound)
    (hk : Keeps (a.perform t).1 v) (hb : writeOf? v y = some b) : ¬ b.IsMisled v := by
  have hplaced := isPlaced_of_writeOf? (hasFileTargets_planOf t s paths) hx ha
  have hkt : Keeps t v := (keeps_perform hplaced.ne_nil).trans hk
  rw [writeOf?_congr hkt.working] at hb
  obtain ⟨inputA, hA, textA, -, hwayA⟩ := exists_input_of_write hx ha
  obtain ⟨inputB, hB, textB, hreadB, hwayB⟩ := exists_input_of_write hy hb
  rintro ⟨hlong, p, hp, he⟩
  cases hout : s.outDir with
  | none =>
    obtain ⟨⟨name, hname⟩, hdirs⟩ := readable_input ht hreadB
    rw [hout, way_beside hname] at hwayB
    have hmem : p ∈ b.way := (List.takeWhile_prefix _).subset hp
    rw [hkt.directory (hdirs p (hwayB ▸ hmem))] at he
    contradiction
  | some dir =>
    obtain ⟨namesA, hnA⟩ := way_below (t := t) (hasNamedDir_of_mem_collect hn hA) dir
    obtain ⟨namesB, hnB⟩ := way_below (t := t) (hasNamedDir_of_mem_collect hn hB) dir
    rw [hout, hnA] at hwayA
    rw [hout, hnB] at hwayB
    rw [hwayB] at hlong hp
    -- What is reached on the common part of the ways stands since the first write.
    have hcommon : p ∉ v.reach (placesAlong t.workingDirectory (components dir)) := by
      intro hm
      have hreach : p ∈ t.reach a.way := hwayA ▸ (hkt.reach_prefix _ _).subset hm
      rw [directory_again hplaced.ne_nil hk hreach] at he
      contradiction
    by_cases hd : v.barred (placesAlong t.workingDirectory (components dir)) = []
    · obtain ⟨hr, hbar⟩ := reach_append hd
        (placesAlong (endOf t.workingDirectory (components dir)) (namesB.map .name))
      rw [hr] at hp
      rw [hbar] at hlong
      rcases List.mem_append.1 hp with hp | hp
      · exact hcommon ((reach_eq_self hd).symm ▸ hp)
      · rw [barred_eq_nil hv hp he] at hlong
        contradiction
    · rw [reach_append_of_barred hd] at hp
      exact hcommon hp

/-- The first write of a plan is misled. -/
def FirstIsMisled (t : FileTree) (plan : List Planned) : Prop :=
  ∃ w ∈ (writesOf t plan).head?, w.IsMisled t

instance (t : FileTree) (plan : List Planned) : Decidable (FirstIsMisled t plan) :=
  inferInstanceAs (Decidable (∃ w ∈ (writesOf t plan).head?, w.IsMisled t))

/-- Reports agree but for one, on a write that failed because a file was met the first time, and
because a directory was needed the second time. -/
def DifferInFault (first second : List FileReport) : Prop :=
  ∃ (before : List FileReport) (report : FileReport) (behind : List FileReport),
    report.status = .writeFailed ∧
      first = before ++ { report with message := some FileFault.exists.message } :: behind ∧
      second = before ++ { report with message := some FileFault.notDirectory.message } :: behind

/-- A plan is delivered to the tree that it has left. -/
theorem deliverAll_again (ht : t.IsSound) (hplan : HasComponentTargets plan)
    (hm : ∀ x ∈ plan, ∀ a, writeOf? t x = some a → ∀ t', t'.IsSound → Keeps (a.perform t).1 t' →
      ∀ y ∈ plan, ∀ b, writeOf? t' y = some b → ¬ b.IsMisled t')
    (h : Redoing (deliverAll t plan).tree t v) :
    (deliverAll v plan).tree = (deliverAll t plan).tree ∧
      (¬ FirstIsMisled t plan → (deliverAll v plan).reports = (deliverAll t plan).reports) ∧
      (FirstIsMisled t plan →
        DifferInFault (deliverAll t plan).reports (deliverAll v plan).reports) := by
  induction plan generalizing v with
  | nil => exact ⟨h.eq ht, fun _ => rfl, by rintro ⟨w, ⟨⟩, -⟩⟩
  | cons x plan ih =>
    have hrest : HasComponentTargets plan := fun y hy => hplan y (List.mem_cons_of_mem _ hy)
    obtain ⟨hsound, hgrows⟩ := grows_deliver ht hplan List.mem_cons_self
    have hkeeps : Keeps (deliver t x.1 x.2).tree (deliverAll t (x :: plan)).tree :=
      (grows_deliverAll hsound hrest).2.toKeeps
    obtain ⟨hnext, hsame, hother⟩ := h.after_deliver ht hplan List.mem_cons_self hkeeps
    have hcons (v : FileTree) : (deliverAll v (x :: plan)).reports =
        (deliver v x.1 x.2).report :: (deliverAll (deliver v x.1 x.2).tree plan).reports := rfl
    rcases deliver_cases ht hplan List.mem_cons_self with ⟨hw, htree⟩ | ⟨w, hw, -, -, htree⟩
    · -- Nothing is written, and the first write is one of the others.
      have hfirst : FirstIsMisled t (x :: plan) ↔ FirstIsMisled t plan := by
        rw [FirstIsMisled, FirstIsMisled, writesOf, List.filterMap_cons_none hw, writesOf]
      have hreport := hsame (by simp [hw])
      have hdeliver : (deliverAll t (x :: plan)).tree = (deliverAll t plan).tree := by
        rw [deliverAll, htree]
      rw [htree, hdeliver] at hnext
      obtain ⟨hend, hequal, hdiffer⟩ := ih hrest (fun y hy a ha t' ht' hk z hz =>
        hm y (List.mem_cons_of_mem _ hy) a ha t' ht' hk z (List.mem_cons_of_mem _ hz)) hnext
      rw [hcons, hcons, hfirst, hreport, htree, hdeliver]
      refine ⟨hend, fun hnot => by rw [hequal hnot], fun hmisled => ?_⟩
      obtain ⟨before, report, behind, hstatus, hf, hs⟩ := hdiffer hmisled
      exact ⟨_ :: before, report, behind, hstatus, by rw [hf]; rfl, by rw [hs]; rfl⟩
    · -- This is the first write, and no other one is misled.
      have hfirst : FirstIsMisled t (x :: plan) ↔ w.IsMisled t := by
        rw [FirstIsMisled, writesOf, List.filterMap_cons_some hw]
        simp
      obtain ⟨hend, hequal⟩ := hnext.after_deliverAll hsound hrest rfl fun t' ht' hk y hy =>
        hm x List.mem_cons_self w hw t' ht' (htree ▸ hk) y (List.mem_cons_of_mem _ hy)
      rw [hcons, hcons, hfirst, hequal]
      refine ⟨hend, fun hnot => ?_, fun hmisled => ?_⟩
      · rw [hsame]
        intro w' hw'
        rw [hw] at hw'
        rwa [← Option.some.inj hw']
      · obtain ⟨report, hstatus, hf, hs⟩ := hother w hw hmisled
        rw [hf, hs]
        exact ⟨[], report, _, hstatus, rfl, rfl⟩

end VueSfc

import FlowPipeline.Proofs.DiskEntries
import FlowPipeline.Work

/-! # Running work

Work that is run in a world comes to a value or a fault, and leaves a world behind. The history of
that world is a true record: its new changes lead from the file system before to the one after. What
a piece of work changes is found from what its parts change.
-/

namespace FlowPipeline

namespace Work

variable {α β : Type}

/-- What work comes to in a world, and the world it leaves behind. -/
def on (w : Work α) (x : World) : Except Fault α × World := w.run.run x

theorem on_of_fst {w : Work α} {x : World} {r : Except Fault α} (h : (w.on x).1 = r) :
    w.on x = (r, (w.on x).2) :=
  Prod.ext h rfl

/-- If something is known of the result of work, there is a result. -/
theorem on_eq_ok_of_map {w : Work α} {x : World} {g : α → β} {b : β}
    (h : (w.on x).1.toOption.map g = some b) : ∃ a y, w.on x = (.ok a, y) ∧ g a = b := by
  obtain ⟨a, ha, hb⟩ := Option.map_eq_some_iff.1 h
  exact ⟨a, _, on_of_fst (Except.eq_ok_of_toOption ha), hb⟩

@[simp] theorem on_pure (a : α) (x : World) : (pure a : Work α).on x = (.ok a, x) := rfl

@[simp] theorem on_throw (e : Fault) (x : World) : (throw e : Work α).on x = (.error e, x) := rfl

theorem on_bind (w : Work α) (f : α → Work β) (x : World) :
    (w >>= f).on x = match w.on x with
      | (.ok a, y) => (f a).on y
      | (.error e, y) => (.error e, y) := by
  show (ExceptT.bind w f).run.run x = _
  simp only [on, ExceptT.run, ExceptT.bind, ExceptT.mk, StateT.run, bind, StateT.bind]
  rcases (w : StateM World _) x with ⟨_ | _, y⟩ <;> rfl

theorem on_bind_ok {w : Work α} {f : α → Work β} {x y : World} {a : α} (h : w.on x = (.ok a, y)) :
    (w >>= f).on x = (f a).on y := by
  rw [on_bind, h]

theorem on_bind_error {w : Work α} {f : α → Work β} {x y : World} {e : Fault}
    (h : w.on x = (.error e, y)) : (w >>= f).on x = (.error e, y) := by
  rw [on_bind, h]

/-- Work in two parts stops at the fault of the first, or comes to what the second comes to in the
world that the first leaves behind. -/
theorem on_bind_cases {w : Work α} {f : α → Work β} {x z : World} {r : Except Fault β}
    (h : (w >>= f).on x = (r, z)) :
    (∃ e, w.on x = (.error e, z) ∧ r = .error e) ∨
      ∃ a y, w.on x = (.ok a, y) ∧ (f a).on y = (r, z) := by
  rcases hw : w.on x with ⟨e | a, y⟩
  · rw [on_bind_error hw] at h
    cases h
    exact .inl ⟨e, rfl, rfl⟩
  · exact .inr ⟨a, y, rfl, on_bind_ok hw ▸ h⟩

theorem on_bind_eq_ok {w : Work α} {f : α → Work β} {x z : World} {b : β}
    (h : (w >>= f).on x = (.ok b, z)) : ∃ a y, w.on x = (.ok a, y) ∧ (f a).on y = (.ok b, z) := by
  rcases on_bind_cases h with ⟨e, -, hr⟩ | hf
  · cases hr
  · exact hf

theorem on_bind_pure (g : α → β) (w : Work α) (x : World) :
    (w >>= fun a => pure (g a)).on x = ((w.on x).1.map g, (w.on x).2) := by
  rw [on_bind]
  rcases w.on x with ⟨_ | _, y⟩ <;> rfl

theorem on_bind_pure_cases {g : α → β} {w : Work α} {x y : World} {r : Except Fault β}
    (h : (w >>= fun a => pure (g a)).on x = (r, y)) : ∃ r', w.on x = (r', y) ∧ r = r'.map g := by
  rw [on_bind_pure] at h
  cases h
  exact ⟨_, rfl, rfl⟩

@[simp] theorem on_map (f : α → β) (w : Work α) (x : World) :
    (f <$> w).on x = ((w.on x).1.map f, (w.on x).2) := by
  have h : f <$> w = w >>= fun a => pure (f a) := rfl
  rw [h, on_bind_pure]

theorem on_map_eq_ok {g : α → β} {w : Work α} {x y : World} {b : β}
    (h : (g <$> w).on x = (.ok b, y)) : ∃ a, w.on x = (.ok a, y) ∧ g a = b := by
  obtain ⟨a, z, ha, hb⟩ := on_bind_eq_ok (f := fun a => pure (g a)) h
  cases hb
  exact ⟨a, ha, rfl⟩

@[simp] theorem on_disk (x : World) : disk.on x = (.ok x.disk, x) := rfl

@[simp] theorem on_get (x : World) : (get : Work World).on x = (.ok x, x) := rfl

@[simp] theorem on_set (x y : World) : (set y : Work PUnit).on x = (.ok ⟨⟩, y) := rfl

@[simp] theorem on_log (level : Level) (message : String) (x : World) :
    (log level message).on x = (.ok (), { x with log := x.log ++ [(level, message)] }) := rfl

@[simp] theorem on_logAll (l : Log) (x : World) :
    (logAll l).on x = (.ok (), { x with log := x.log ++ l }) := rfl

@[simp] theorem on_ofExcept {ε : Type} (fault : ε → Fault) (r : Except ε α) (x : World) :
    (ofExcept fault r).on x = (r.mapError fault, x) := by
  cases r <;> rfl

theorem on_ofExcept_cases {ε : Type} {fault : ε → Fault} {r : Except ε α} {x y : World}
    {r' : Except Fault α} (h : (ofExcept fault r).on x = (r', y)) :
    y = x ∧ ((∃ e, r = .error e ∧ r' = .error (fault e)) ∨ ∃ a, r = .ok a ∧ r' = .ok a) := by
  rw [on_ofExcept] at h
  cases h
  cases r with
  | error e => exact ⟨rfl, .inl ⟨e, rfl, rfl⟩⟩
  | ok a => exact ⟨rfl, .inr ⟨a, rfl, rfl⟩⟩

theorem on_ofExcept_eq_ok {ε : Type} {fault : ε → Fault} {r : Except ε α} {x y : World} {a : α}
    (h : (ofExcept fault r).on x = (.ok a, y)) : r = .ok a ∧ y = x := by
  obtain ⟨rfl, ⟨_, -, hr⟩ | ⟨b, hb, hr⟩⟩ := on_ofExcept_cases h
  · cases hr
  · cases hr
    exact ⟨hb, rfl⟩

@[simp] theorem on_outcome (w : Work α) (x : World) :
    (outcome w).on x = (.ok (w.on x).1, (w.on x).2) := by
  show (Except.ok <$> w.run).run x = _
  rfl

theorem on_outcome_eq_ok {w : Work α} {x y : World} {r : Except Fault α}
    (h : (outcome w).on x = (.ok r, y)) : w.on x = (r, y) := by
  rw [on_outcome] at h
  cases h
  rfl

@[simp] theorem on_mapFault (f : Fault → Fault) (w : Work α) (x : World) :
    (mapFault f w).on x = ((w.on x).1.mapError f, (w.on x).2) := by
  rw [mapFault, on_bind_ok (on_outcome w x)]
  rcases w.on x with ⟨_ | _, y⟩ <;> rfl

theorem on_mapFault_cases {f : Fault → Fault} {w : Work α} {x y : World} {r : Except Fault α}
    (h : (mapFault f w).on x = (r, y)) :
    (∃ e, w.on x = (.error e, y) ∧ r = .error (f e)) ∨ ∃ a, w.on x = (.ok a, y) ∧ r = .ok a := by
  rw [on_mapFault] at h
  rcases hw : w.on x with ⟨e | a, z⟩ <;> rw [hw] at h <;> cases h
  · exact .inl ⟨e, rfl, rfl⟩
  · exact .inr ⟨a, rfl, rfl⟩

theorem on_mapFault_eq_ok {f : Fault → Fault} {w : Work α} {x y : World} {a : α}
    (h : (mapFault f w).on x = (.ok a, y)) : w.on x = (.ok a, y) := by
  rcases on_mapFault_cases h with ⟨_, -, hr⟩ | ⟨b, hw, hr⟩
  · cases hr
  · cases hr
    exact hw

@[simp] theorem on_change (e : Edit) (x : World) :
    (change e).on x = match e.apply x.disk with
      | .ok d => (.ok (), { x with disk := d, history := x.history ++ [(x.disk, e)] })
      | .error f => (.error (.file f), x) := by
  rw [change, on_bind_ok (on_disk x), on_bind, on_ofExcept]
  cases e.apply x.disk <;> rfl

theorem on_change_cases {e : Edit} {x y : World} {r : Except Fault Unit}
    (h : (change e).on x = (r, y)) :
    (∃ f, e.apply x.disk = .error f ∧ y = x ∧ r = .error (.file f)) ∨
      e.apply x.disk = .ok y.disk ∧ r = .ok () := by
  rw [on_change] at h
  rcases he : e.apply x.disk with f | d <;> rw [he] at h <;> cases h
  · exact .inl ⟨f, rfl, rfl, rfl⟩
  · exact .inr ⟨rfl, rfl⟩

theorem on_change_eq_ok {e : Edit} {x y : World} {u : Unit} (h : (change e).on x = (.ok u, y)) :
    e.apply x.disk = .ok y.disk := by
  rcases on_change_cases h with ⟨_, -, -, hr⟩ | ⟨he, -⟩
  · cases hr
  · exact he

@[simp] theorem on_has (p : Path) (x : World) :
    (has p).on x = ((x.disk.has p).mapError .file, x) := by
  rw [has, on_bind_ok (on_disk x), on_ofExcept]

theorem on_has_eq_ok {p : Path} {x y : World} {b : Bool} (h : (has p).on x = (.ok b, y)) :
    x.disk.has p = .ok b ∧ y = x := by
  rw [has, on_bind_ok (on_disk x)] at h
  exact on_ofExcept_eq_ok h

theorem on_normalize (m : Manifest) (x : World) :
    (normalize m).on x =
      ((m.normalize.run x.log).1.mapError .manifest,
        { x with log := (m.normalize.run x.log).2 }) := by
  rw [normalize, on_bind_ok (on_get x)]
  rcases m.normalize.run x.log with ⟨r, l⟩
  exact (on_bind_ok (on_set x _)).trans (on_ofExcept _ _ _)

theorem on_readText (p : Path) (x : World) :
    ∃ r, (readText p).on x = (r, x) ∧ ∀ s, r = .ok s ↔ x.disk.text? p = some s := by
  rw [readText, on_bind_ok (on_disk x), on_bind, on_ofExcept]
  unfold Disk.text?
  rcases x.disk.read p with f | bytes
  · exact ⟨_, rfl, fun s => by simp [Except.toOption]⟩
  · simp only [Except.mapError, on_map, on_ofExcept, Except.toOption, Option.bind_eq_bind,
      Option.bind_some]
    rcases Text.Utf8.decode bytes with f | s
    · exact ⟨_, rfl, fun s => by simp [Except.map]⟩
    · exact ⟨_, rfl, fun s => by simp [Except.map, pure]⟩

theorem on_readText_of_text? {p : Path} {x : World} {s : String} (h : x.disk.text? p = some s) :
    (readText p).on x = (.ok s, x) := by
  obtain ⟨r, hr, hs⟩ := on_readText p x
  rw [hr, (hs s).2 h]

theorem on_readText_eq_ok {p : Path} {x y : World} {s : String}
    (h : (readText p).on x = (.ok s, y)) : x.disk.text? p = some s ∧ y = x := by
  obtain ⟨r, hr, hs⟩ := on_readText p x
  rw [hr] at h
  cases h
  exact ⟨(hs s).1 rfl, rfl⟩

end Work

/-! ## What work changes -/

/-- Changes lead from the first file system to the second, each made where the one before it left
off. -/
inductive Replay : Disk → List (Disk × Edit) → Disk → Prop where
  | nil (d : Disk) : Replay d [] d
  | cons {d d' d'' : Disk} {e : Edit} {es : List (Disk × Edit)} (h : e.apply d = .ok d')
      (hs : Replay d' es d'') : Replay d ((d, e) :: es) d''

theorem Replay.append {d d' d'' : Disk} {es fs : List (Disk × Edit)} (h : Replay d es d')
    (h' : Replay d' fs d'') : Replay d (es ++ fs) d'' := by
  induction h with
  | nil => exact h'
  | cons he _ ih => exact .cons he (ih h')

/-- The second world comes from the first by changes of which each has a property. -/
def World.Leads (P : Disk → Edit → Prop) (x y : World) : Prop :=
  ∃ es, y.history = x.history ++ es ∧ Replay x.disk es y.disk ∧ ∀ c ∈ es, P c.1 c.2

namespace World.Leads

variable {P Q : Disk → Edit → Prop} {x y z : World}

theorem of_eq (hd : y.disk = x.disk) (hh : y.history = x.history) : Leads P x y := by
  refine ⟨[], by simp [hh], ?_, by simp⟩
  rw [hd]
  exact .nil _

theorem refl (x : World) : Leads P x x := of_eq rfl rfl

theorem trans (h : Leads P x y) (h' : Leads P y z) : Leads P x z := by
  obtain ⟨es, hes, hr, hp⟩ := h
  obtain ⟨fs, hfs, hr', hp'⟩ := h'
  refine ⟨es ++ fs, by rw [hfs, hes, List.append_assoc], hr.append hr', fun c hc => ?_⟩
  rcases List.mem_append.1 hc with hc | hc
  · exact hp c hc
  · exact hp' c hc

theorem mono (h : Leads P x y) (hpq : ∀ d e, P d e → Q d e) : Leads Q x y := by
  obtain ⟨es, hes, hr, hp⟩ := h
  exact ⟨es, hes, hr, fun c hc => hpq _ _ (hp c hc)⟩

end World.Leads

namespace Work

variable {α β : Type} {P : Disk → Edit → Prop}

theorem leads_bind {w : Work α} {f : α → Work β} {x : World} (hw : x.Leads P (w.on x).2)
    (hf : ∀ a y, w.on x = (.ok a, y) → y.Leads P ((f a).on y).2) :
    x.Leads P ((w >>= f).on x).2 := by
  rcases h : w.on x with ⟨e | a, y⟩
  · rw [h] at hw
    rw [on_bind_error h]
    exact hw
  · rw [h] at hw
    rw [on_bind_ok h]
    exact hw.trans (hf a y h)

theorem leads_change {e : Edit} {x : World} (h : P x.disk e) :
    x.Leads P ((change e).on x).2 := by
  rw [on_change]
  rcases he : e.apply x.disk with f | d
  · exact .refl x
  · exact ⟨[(x.disk, e)], rfl, .cons he (.nil d), by simpa using h⟩

theorem leads_mapFault {f : Fault → Fault} {w : Work α} {x : World} (h : x.Leads P (w.on x).2) :
    x.Leads P ((mapFault f w).on x).2 := by
  rw [on_mapFault]
  exact h

theorem leads_outcome {w : Work α} {x : World} (h : x.Leads P (w.on x).2) :
    x.Leads P ((outcome w).on x).2 := by
  rw [on_outcome]
  exact h

/-- Work that changes nothing but the log. -/
structure Reads (w : Work α) : Prop where
  disk : ∀ x, (w.on x).2.disk = x.disk
  history : ∀ x, (w.on x).2.history = x.history

namespace Reads

theorem leads {w : Work α} (h : Reads w) (x : World) : x.Leads P (w.on x).2 :=
  .of_eq (h.disk x) (h.history x)

theorem disk_eq {w : Work α} {x y : World} {r : Except Fault α} (h : Reads w)
    (hr : w.on x = (r, y)) : y.disk = x.disk := by
  have hdisk := h.disk x
  rwa [hr] at hdisk

theorem pure (a : α) : Reads (pure a : Work α) := ⟨fun _ => rfl, fun _ => rfl⟩

theorem throw (e : Fault) : Reads (throw e : Work α) := ⟨fun _ => rfl, fun _ => rfl⟩

theorem bind {w : Work α} {f : α → Work β} (h : Reads w) (hf : ∀ a, Reads (f a)) :
    Reads (w >>= f) := by
  have hon (x : World) : ((w >>= f).on x).2.disk = x.disk ∧
      ((w >>= f).on x).2.history = x.history := by
    have hd := h.disk x
    have hh := h.history x
    rcases hw : w.on x with ⟨e | a, y⟩
    · rw [on_bind_error hw]
      rw [hw] at hd hh
      exact ⟨hd, hh⟩
    · rw [on_bind_ok hw, (hf a).disk, (hf a).history]
      rw [hw] at hd hh
      exact ⟨hd, hh⟩
  exact ⟨fun x => (hon x).1, fun x => (hon x).2⟩

theorem ite {c : Prop} [Decidable c] {v w : Work α} (hv : Reads v) (hw : Reads w) :
    Reads (if c then v else w) := by
  split_ifs
  · exact hv
  · exact hw

/-- Unless a condition holds, work ends with a fault. -/
theorem guard {b : Bool} {f : Fault} {w : Work α} (hw : Reads w) : Reads (do
    if !b then MonadExcept.throw f
    w) := by
  cases b with
  | true => exact hw
  | false => exact .bind (.throw f) fun _ => hw

theorem map {f : α → β} {w : Work α} (h : Reads w) : Reads (f <$> w) := by
  refine ⟨fun x => ?_, fun x => ?_⟩
  · rw [on_map]
    exact h.disk x
  · rw [on_map]
    exact h.history x

theorem readDisk : Reads Work.disk := ⟨fun _ => rfl, fun _ => rfl⟩

theorem log (level : Level) (message : String) : Reads (log level message) :=
  ⟨fun _ => rfl, fun _ => rfl⟩

theorem logAll (l : Log) : Reads (logAll l) := ⟨fun _ => rfl, fun _ => rfl⟩

theorem ofExcept {ε : Type} (fault : ε → Fault) (r : Except ε α) : Reads (ofExcept fault r) := by
  cases r with
  | ok a => exact .pure a
  | error e => exact .throw _

theorem has (p : Path) : Reads (has p) := .bind .readDisk fun _ => .ofExcept _ _

theorem readText (p : Path) : Reads (readText p) :=
  .bind .readDisk fun _ => .bind (.ofExcept _ _) fun _ => .map (.ofExcept _ _)

theorem normalize (m : Manifest) : Reads (normalize m) :=
  ⟨fun x => by rw [on_normalize], fun x => by rw [on_normalize]⟩

end Reads

end Work
end FlowPipeline

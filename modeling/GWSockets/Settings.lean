import GWSockets.Effect

namespace GWSockets

section assign

variable {m : Fields} {key value : Bytes}

theorem mem_assign {p : Bytes × Bytes} (h : p ∈ assign m key value) :
    p = (key, value) ∨ p ∈ m := by
  unfold assign at h
  split at h
  · obtain ⟨q, hq, rfl⟩ := List.mem_map.mp h
    split
    · exact .inl rfl
    · exact .inr hq
  · rcases List.mem_append.mp h with h | h
    · exact .inr h
    · exact .inl (List.mem_singleton.mp h)

theorem mem_keys : m.any (fun p => p.1 == key) = true ↔ key ∈ m.map Prod.fst := by simp

theorem assign_keys : (assign m key value).map Prod.fst =
    if key ∈ m.map Prod.fst then m.map Prod.fst else m.map Prod.fst ++ [key] := by
  unfold assign
  by_cases hk : key ∈ m.map Prod.fst
  · rw [if_pos (mem_keys.mpr hk), if_pos hk, List.map_map]
    refine List.map_congr_left fun p _ => ?_
    by_cases hp : p.1 = key <;> simp [hp]
  · rw [if_neg (fun h => hk (mem_keys.mp h)), if_neg hk]
    simp

theorem assign_ne_nil : assign m key value ≠ [] := by
  intro h
  have hk := congrArg (fun m : Fields => key ∈ m.map Prod.fst) h
  simp only [assign_keys] at hk
  split at hk <;> simp_all

theorem assign_nodup (h : (m.map Prod.fst).Nodup) :
    ((assign m key value).map Prod.fst).Nodup := by
  rw [assign_keys]
  split
  · exact h
  · next hk =>
    refine List.nodup_append.mpr ⟨h, by simp, fun a ha b hb hab => hk ?_⟩
    rw [← List.mem_singleton.mp hb, ← hab]
    exact ha

theorem lookup_entry (a b k : Bytes) :
    List.lookup k ((a, b) :: m) = if k = a then some b else m.lookup k := by
  rw [List.lookup_cons]
  by_cases hk : k = a
  · simp [hk]
  · rw [beq_eq_false_iff_ne.mpr hk, if_neg hk]

theorem lookup_replaced {k : Bytes} (h : k = key → key ∈ m.map Prod.fst) :
    (m.map (fun p => if p.1 == key then (key, value) else p)).lookup k =
      if k = key then some value else m.lookup k := by
  induction m with
  | nil =>
    have hk : k ≠ key := fun hk => by simpa using h hk
    simp [hk]
  | cons p m ih =>
    obtain ⟨a, b⟩ := p
    by_cases ha : a = key
    · subst ha
      by_cases hk : k = a
      · subst hk
        simp
      · have := ih (fun he => absurd he hk)
        simpa [lookup_entry, hk] using this
    · have := ih (fun he => (List.mem_cons.mp (h he)).resolve_left (Ne.symm ha))
      by_cases hk : k = a
      · subst hk
        simp [ha]
      · simpa [lookup_entry, hk, ha] using this

theorem lookup_assign (k : Bytes) :
    (assign m key value).lookup k = if k = key then some value else m.lookup k := by
  unfold assign
  by_cases hk : key ∈ m.map Prod.fst
  · rw [if_pos (mem_keys.mpr hk)]
    exact lookup_replaced (fun _ => hk)
  · rw [if_neg (fun h => hk (mem_keys.mp h)), List.lookup_append, lookup_entry]
    by_cases he : k = key
    · subst he
      have hnone : m.lookup k = none := by
        rw [List.lookup_eq_none_iff]
        rintro p hp
        rw [bne_iff_ne]
        rintro rfl
        exact hk (List.mem_map_of_mem hp)
      simp [hnone]
    · simp [he]

end assign

def assigns (m : Fields) (es : List (Bytes × Bytes)) : Fields :=
  es.foldl (fun m e => assign m e.1 e.2) m

section assigns

variable (es : List (Bytes × Bytes)) {m : Fields}

theorem mem_assigns {p : Bytes × Bytes} (h : p ∈ assigns m es) : p ∈ es ∨ p ∈ m := by
  induction es generalizing m with
  | nil => exact .inr h
  | cons e es ih =>
    rcases ih h with h | h
    · exact .inl (List.mem_cons_of_mem e h)
    · refine (mem_assign h).imp (fun h => ?_) id
      rw [h]
      exact List.mem_cons_self ..

theorem assigns_nodup (h : (m.map Prod.fst).Nodup) : ((assigns m es).map Prod.fst).Nodup := by
  induction es generalizing m with
  | nil => exact h
  | cons e es ih => exact ih (assign_nodup h)

theorem mem_assigns_keys {k : Bytes} :
    k ∈ (assigns m es).map Prod.fst ↔ k ∈ es.map Prod.fst ∨ k ∈ m.map Prod.fst := by
  induction es generalizing m with
  | nil => simp [assigns]
  | cons e es ih =>
    show k ∈ (assigns (assign m e.1 e.2) es).map Prod.fst ↔ _
    rw [ih, assign_keys, List.map_cons, List.mem_cons]
    split
    · next he => grind
    · rw [List.mem_append, List.mem_singleton]
      tauto

theorem assigns_eq_nil : assigns m es = [] ↔ m = [] ∧ es = [] := by
  induction es generalizing m with
  | nil => simp [assigns]
  | cons e es ih =>
    show assigns (assign m e.1 e.2) es = [] ↔ _
    rw [ih]
    simp [assign_ne_nil]

theorem lookup_assigns (k : Bytes) :
    (assigns m es).lookup k = (es.reverse.lookup k).or (m.lookup k) := by
  induction es generalizing m with
  | nil => rfl
  | cons e es ih =>
    show (assigns (assign m e.1 e.2) es).lookup k = _
    rw [ih, lookup_assign, List.reverse_cons, List.lookup_append, Option.or_assoc]
    congr 1
    obtain ⟨a, b⟩ := e
    rw [lookup_entry]
    by_cases hk : k = a <;> simp [hk]

end assigns

theorem lookup_mem {m : Fields} (h : (m.map Prod.fst).Nodup) {k v : Bytes} :
    m.lookup k = some v ↔ (k, v) ∈ m := by
  induction m with
  | nil => simp
  | cons p m ih =>
    obtain ⟨a, b⟩ := p
    obtain ⟨ha, hm⟩ := List.nodup_cons.mp h
    rw [lookup_entry, List.mem_cons, Prod.mk.injEq]
    by_cases hk : k = a
    · subst hk
      have hn : (k, v) ∉ m := fun hkv => ha (List.mem_map.mpr ⟨(k, v), hkv, rfl⟩)
      simp [hn, eq_comm]
    · simp [hk, ih hm]

theorem lookup_perm {m m' : Fields} (h : (m.map Prod.fst).Nodup) (hp : m'.Perm m) (k : Bytes) :
    m'.lookup k = m.lookup k := by
  have h' : (m'.map Prod.fst).Nodup := (hp.map Prod.fst).nodup_iff.mpr h
  refine Option.ext fun v => ?_
  rw [lookup_mem h', lookup_mem h, hp.mem_iff]

def OperationKind.addressed (host path : Bytes) : OperationKind → Prop
  | .sslHandshake h p | .handshake h p _ => h = host ∧ p = path
  | _ => True

namespace World

def acceptedCookie (w : World) (s : Step) : Option (Bytes × Bytes) :=
  match s.action with
  | .setCookie key value =>
      if w.fault = false ∧ (w.setCookie key value).1 = true then some (key, value) else none
  | _ => none

def acceptedHeader (w : World) (s : Step) : Option (Bytes × Bytes) :=
  match s.action with
  | .setHeader key value =>
      if w.fault = false ∧ (w.setHeader key value).1 = true then some (key, value) else none
  | _ => none

def validCookie (w : World) (s : Step) : Option (Bytes × Bytes) :=
  match s.action with
  | .setCookie key value =>
      if w.fault = false ∧ w.state = .disconnected ∧ isToken key = true ∧
          isCookieValue value = true then some (key, value) else none
  | _ => none

def validHeader (w : World) (s : Step) : Option (Bytes × Bytes) :=
  match s.action with
  | .setHeader key value =>
      if w.fault = false ∧ w.state = .disconnected ∧ isToken key = true ∧
          isFieldValue value = true then some (key, value) else none
  | _ => none

def acceptedCookies (w : World) (ls : List Step) : List (Bytes × Bytes) :=
  Machine.emitted step acceptedCookie w ls

def acceptedHeaders (w : World) (ls : List Step) : List (Bytes × Bytes) :=
  Machine.emitted step acceptedHeader w ls

def validCookies (w : World) (ls : List Step) : List (Bytes × Bytes) :=
  Machine.emitted step validCookie w ls

def validHeaders (w : World) (ls : List Step) : List (Bytes × Bytes) :=
  Machine.emitted step validHeader w ls

section frame

def address (w : World) : SocketClass × Bytes × Nat × Bytes := (w.kind, w.host, w.port, w.path)

def settings (w : World) : Fields × Fields × SocketClass × Bytes × Nat × Bytes :=
  (w.cookies, w.headers, w.address)

def Addressed (w : World) : Prop := ∀ op ∈ w.pending, op.kind.addressed w.hostWithPort w.path

structure Frame (p : Prop) (w v : World) : Prop where
  settings : v.settings = w.settings
  addressed : p → w.Addressed → v.Addressed

variable {p : Prop} {w v u : World}

theorem Frame.trans (h : Frame p w v) (h' : Frame p v u) : Frame p w u :=
  ⟨h'.settings.trans h.settings, fun hp hw => h'.addressed hp (h.addressed hp hw)⟩

theorem Frame.cookies (h : Frame p w v) : v.cookies = w.cookies := congrArg Prod.fst h.settings

theorem Frame.headers (h : Frame p w v) : v.headers = w.headers :=
  congrArg (fun t => t.2.1) h.settings

theorem Frame.steady (h : Frame True w v) (hw : w.Addressed) :
    v.address = w.address ∧ v.Addressed :=
  ⟨congrArg (fun t => t.2.2) h.settings, h.addressed trivial hw⟩

theorem hostWithPort_congr (h : v.settings = w.settings) : v.hostWithPort = w.hostWithPort := by
  simp only [World.settings, address, Prod.mk.injEq] at h
  rw [hostWithPort, hostWithPort, h.2.2.2.1, h.2.2.2.2.1]

theorem Frame.of_sub (h : v.settings = w.settings)
    (hpending : ∀ op ∈ v.pending, ∃ op' ∈ w.pending, op'.kind = op.kind) : Frame p w v := by
  refine ⟨h, fun _ hw op hop => ?_⟩
  obtain ⟨op', hop', hkind⟩ := hpending op hop
  have hpath : v.path = w.path := by
    simp only [World.settings, address, Prod.mk.injEq] at h
    exact h.2.2.2.2.2
  rw [hostWithPort_congr h, hpath, ← hkind]
  exact hw op' hop'

theorem Frame.of_eq (h : v.settings = w.settings) (hpending : v.pending = w.pending) :
    Frame p w v := .of_sub h fun op hop => ⟨op, hpending ▸ hop, rfl⟩

theorem Frame.start (w : World) {kind : OperationKind}
    (h : p → kind.addressed w.hostWithPort w.path) : Frame p w (w.start kind) := by
  refine ⟨rfl, fun hp hw op hop => ?_⟩
  rcases List.mem_cons.mp hop with rfl | hop
  · exact h hp
  · exact hw op hop

variable (w) (o : Outcome) (ec : ErrorCode)

theorem frame_doClose (reason : Bytes) : Frame p w (w.doClose reason) := .of_eq rfl rfl

theorem frame_closeNow (reason : Bytes) : Frame p w (w.closeNow reason).2 := by
  rw [closeNow_snd]
  split
  · exact frame_doClose w reason
  · exact .of_eq rfl rfl

theorem frame_errorConnection (message : Bytes) : Frame p w (w.errorConnection message).2 := by
  rw [errorConnection_snd]
  split
  · exact Frame.trans (v := w.put ⟨.error, message⟩) (.of_eq rfl rfl) (frame_doClose _ message)
  · exact .of_eq rfl rfl

theorem frame_checkWriting : Frame p w (w.checkWriting o) := by
  have hc := checkWriting_checked w o
  generalize w.checkWriting o = w' at hc
  cases hc with
  | idle => exact .of_eq rfl rfl
  | next m rest =>
    let ready : World :=
      { w with writing := true, writeQueue := rest, messageToWrite := m.message }
    exact Frame.trans (v := ready) (.of_eq rfl rfl) (.start ready fun _ => trivial)
  | marker m rest =>
    let ready : World := { w with writing := true, writeQueue := rest, state := .disconnecting }
    exact Frame.trans (v := ready) (.of_eq rfl rfl) (.start ready fun _ => trivial)
  | abandoned => exact .of_eq rfl rfl

theorem frame_close : Frame p w (w.close o).2 := by
  unfold close
  split
  · exact .of_eq rfl rfl
  · dsimp only
    split
    · exact Frame.trans (v := w.request) (.of_eq rfl rfl) (frame_checkWriting w.request o)
    · exact .of_eq rfl rfl

theorem frame_handshakeCompleted : Frame p w (w.handshakeCompleted ec o) := by
  unfold handshakeCompleted
  split
  · split
    · refine Frame.trans (v := w.establish) ?_ (frame_checkWriting w.establish o)
      let ready : World := { w with state := .connected }.put ⟨.connected, ascii "Connected"⟩
      exact Frame.trans (v := ready) (.of_eq rfl rfl) (.start ready fun _ => trivial)
    · exact frame_closeNow w _
  · exact frame_errorConnection w _

theorem frame_hostResolvedStep : Frame p w (w.hostResolvedStep ec o) := by
  have hrenew : Frame p w w.renew := .of_eq rfl rfl
  unfold hostResolvedStep
  split
  · rcases asyncConnect_eq w o with h | ⟨-, h⟩ <;> rw [h]
    · exact hrenew.trans (.start _ fun _ => trivial)
    · exact hrenew.trans (frame_errorConnection w.renew _)
  · exact frame_errorConnection w _

theorem frame_socketConnected : Frame p w (w.socketConnected ec) := by
  unfold socketConnected asyncHandshake
  split
  · split <;> exact .start _ fun _ => ⟨rfl, rfl⟩
  · exact frame_errorConnection w _

theorem frame_sslHandshakeComplete (host path : Bytes) :
    Frame (host = w.hostWithPort ∧ path = w.path) w (w.sslHandshakeComplete ec host path o) := by
  unfold sslHandshakeComplete
  split
  · exact .start _ fun h => h
  · exact frame_handshakeCompleted w o ec

theorem frame_onRead : Frame p w (w.onRead ec o) := by
  unfold onRead
  split
  · let ready : World := { w.put ⟨.message, w.readBuffer⟩ with readBuffer := [] }
    exact Frame.trans (v := ready) (.of_eq rfl rfl) (.start ready fun _ => trivial)
  · split
    · exact frame_closeNow w _
    · exact frame_errorConnection w _

theorem frame_onWrite : Frame p w (w.onWrite ec o) := by
  unfold onWrite
  split
  · exact Frame.trans (v := w.release) (.of_eq rfl rfl) (frame_checkWriting w.release o)
  · split
    · exact frame_closeNow w _
    · exact frame_errorConnection w _

theorem frame_invoke (op : Operation) :
    Frame (op.kind.addressed w.hostWithPort w.path) w (w.invoke op ec o) := by
  unfold invoke
  split
  · exact frame_hostResolvedStep w o ec
  · exact frame_socketConnected w ec
  · next host path hkind =>
    rw [hkind]
    exact frame_sslHandshakeComplete w o ec host path
  · exact frame_handshakeCompleted w o ec
  · exact frame_onRead w o ec
  · exact frame_onWrite w o ec
  · exact .of_eq rfl rfl

theorem frame_finish (op : Operation) : Frame p w (w.finish op ec) :=
  .of_sub rfl fun op' hop => ⟨op', List.mem_of_mem_erase hop, rfl⟩

theorem frame_complete (op : Operation) : Frame p w (w.complete op ec o) := by
  unfold complete
  split
  · next hmem =>
    unfold guardGeneration
    split
    · have hinvoke := frame_invoke (w.finish op ec) o ec op
      have hfinish : Frame p w (w.finish op ec) := frame_finish w ec op
      refine ⟨hinvoke.settings.trans hfinish.settings, fun hp hw => ?_⟩
      exact hinvoke.addressed (hw op hmem) (hfinish.addressed hp hw)
    · exact frame_finish w ec op
  · exact .of_eq rfl rfl

theorem frame_openSocket (clear : Bool) : Frame p w (w.openSocket clear) := by
  by_cases h : w.state = .disconnected
  · have hsettings : (w.openSocket clear).settings = w.settings := by
      simp [World.settings, address, openSocket_toGWSocket clear h]
    refine ⟨hsettings, fun _ hw op hop => ?_⟩
    have hpath : (w.openSocket clear).path = w.path := by
      rw [openSocket_toGWSocket clear h]
    rw [hostWithPort_congr hsettings, hpath]
    rw [openSocket_pending clear h] at hop
    rcases List.mem_cons.mp hop with rfl | hop
    · exact trivial
    · exact hw op hop
  · rw [openSocket, if_neg h]
    exact .of_eq rfl rfl

theorem frame_receive (op : Operation) (bytes : Bytes) : Frame p w (w.receive op bytes) := by
  unfold receive
  split
  · next h =>
    refine .of_sub rfl fun op' hop => ?_
    rcases List.mem_cons.mp hop with rfl | hop
    · exact ⟨op, h.1, rfl⟩
    · exact ⟨op', List.mem_of_mem_erase hop, rfl⟩
  · exact .of_eq rfl rfl

theorem frame_verify (error : X509Error) : Frame p w (w.verify error) := by
  unfold verify verifyCertificate
  split
  · split
    · split
      · exact .of_eq rfl rfl
      · refine Frame.trans ?_ (frame_errorConnection (w.emit _) _)
        exact .of_eq rfl rfl
    · exact .of_eq rfl rfl
  · exact .of_eq rfl rfl

end frame

theorem step_frame (w : World) (s : Step) (hc : ∀ k v, s.action ≠ .setCookie k v)
    (hh : ∀ k v, s.action ≠ .setHeader k v) : Frame True w (w.step s) := by
  obtain ⟨action, o⟩ := s
  unfold step
  split
  · exact .of_eq rfl rfl
  cases action with
  | openSocket clear => exact frame_openSocket w clear
  | write message binary =>
    exact Frame.trans (v := w.enqueue message binary) (.of_eq rfl rfl) (frame_checkWriting _ o)
  | close => exact frame_close w o
  | closeNow reason => exact frame_closeNow w reason
  | setCookie key value => exact absurd rfl (hc key value)
  | setHeader key value => exact absurd rfl (hh key value)
  | receive op bytes => exact frame_receive w op bytes
  | complete op ec => exact frame_complete w o ec op
  | verify error => exact frame_verify w error
  | _ => exact .of_eq rfl rfl

theorem setCookie_true_iff {w : World} {key value : Bytes} : (w.setCookie key value).1 = true ↔
    w.state = .disconnected ∧ isToken key = true ∧ isCookieValue value = true := by
  cases ht : isToken key <;> cases hv : isCookieValue value <;>
    by_cases hs : w.state = .disconnected <;> simp [setCookie, ht, hv, hs]

theorem setHeader_true_iff {w : World} {key value : Bytes} : (w.setHeader key value).1 = true ↔
    w.state = .disconnected ∧ isToken key = true ∧ isFieldValue value = true := by
  cases ht : isToken key <;> cases hv : isFieldValue value <;>
    by_cases hs : w.state = .disconnected <;> simp [setHeader, ht, hv, hs]

theorem acceptedCookies_eq (w : World) (ls : List Step) :
    w.acceptedCookies ls = w.validCookies ls := by
  have heq : acceptedCookie = validCookie := by
    funext w s
    unfold acceptedCookie validCookie
    split
    · simp only [setCookie_true_iff]
    · rfl
  rw [acceptedCookies, heq, validCookies]

theorem acceptedHeaders_eq (w : World) (ls : List Step) :
    w.acceptedHeaders ls = w.validHeaders ls := by
  have heq : acceptedHeader = validHeader := by
    funext w s
    unfold acceptedHeader validHeader
    split
    · simp only [setHeader_true_iff]
    · rfl
  rw [acceptedHeaders, heq, validHeaders]

theorem setCookie_rejected {w : World} {key value : Bytes}
    (h : (w.setCookie key value).1 = false) : (w.setCookie key value).2 = w := by
  unfold setCookie at h ⊢
  split
  · rfl
  · split
    · rfl
    · next h1 h2 => simp [h1, h2] at h

theorem setHeader_rejected {w : World} {key value : Bytes}
    (h : (w.setHeader key value).1 = false) : (w.setHeader key value).2 = w := by
  unfold setHeader at h ⊢
  split
  · rfl
  · split
    · rfl
    · next h1 h2 => simp [h1, h2] at h

theorem setCookie_accepted {w : World} {key value : Bytes}
    (h : (w.setCookie key value).1 = true) :
    (w.setCookie key value).2 = { w with cookies := assign w.cookies key value } := by
  obtain ⟨hs, ht, hv⟩ := setCookie_true_iff.mp h
  simp [setCookie, hs, ht, hv]

theorem setHeader_accepted {w : World} {key value : Bytes}
    (h : (w.setHeader key value).1 = true) :
    (w.setHeader key value).2 = { w with headers := assign w.headers key value } := by
  obtain ⟨hs, ht, hv⟩ := setHeader_true_iff.mp h
  simp [setHeader, hs, ht, hv]

theorem setCookie_headers (w : World) (key value : Bytes) :
    (w.setCookie key value).2.headers = w.headers := by
  unfold setCookie
  split
  · rfl
  · split <;> rfl

theorem setHeader_cookies (w : World) (key value : Bytes) :
    (w.setHeader key value).2.cookies = w.cookies := by
  unfold setHeader
  split
  · rfl
  · split <;> rfl

theorem validCookie_valid {w : World} {s : Step} {e : Bytes × Bytes}
    (h : validCookie w s = some e) : isToken e.1 = true ∧ isCookieValue e.2 = true := by
  unfold validCookie at h
  split at h
  · split at h
    · next hc =>
      cases h
      exact hc.2.2
    · cases h
  · cases h

theorem validHeader_valid {w : World} {s : Step} {e : Bytes × Bytes}
    (h : validHeader w s = some e) : isToken e.1 = true ∧ isFieldValue e.2 = true := by
  unfold validHeader at h
  split at h
  · split at h
    · next hc =>
      cases h
      exact hc.2.2
    · cases h
  · cases h

theorem step_cookies (w : World) (s : Step) :
    (w.step s).cookies = assigns w.cookies (acceptedCookie w s).toList := by
  obtain ⟨action, o⟩ := s
  cases hf : w.fault with
  | true => cases action <;> simp [step, acceptedCookie, hf, assigns]
  | false =>
    cases action with
    | setCookie key value =>
      cases hr : (w.setCookie key value).1 with
      | true => simp [step, acceptedCookie, hf, hr, setCookie_accepted hr, assigns]
      | false => simp [step, acceptedCookie, hf, hr, setCookie_rejected hr, assigns]
    | setHeader key value => simp [step, acceptedCookie, hf, setHeader_cookies, assigns]
    | _ => exact (step_frame w _ (by simp) (by simp)).cookies

theorem step_headers (w : World) (s : Step) :
    (w.step s).headers = assigns w.headers (acceptedHeader w s).toList := by
  obtain ⟨action, o⟩ := s
  cases hf : w.fault with
  | true => cases action <;> simp [step, acceptedHeader, hf, assigns]
  | false =>
    cases action with
    | setHeader key value =>
      cases hr : (w.setHeader key value).1 with
      | true => simp [step, acceptedHeader, hf, hr, setHeader_accepted hr, assigns]
      | false => simp [step, acceptedHeader, hf, hr, setHeader_rejected hr, assigns]
    | setCookie key value => simp [step, acceptedHeader, hf, setCookie_headers, assigns]
    | _ => exact (step_frame w _ (by simp) (by simp)).headers

theorem setCookie_address (w : World) (key value : Bytes) :
    (w.setCookie key value).2.address = w.address ∧
      (w.setCookie key value).2.pending = w.pending := by
  unfold setCookie
  split
  · exact ⟨rfl, rfl⟩
  · split <;> exact ⟨rfl, rfl⟩

theorem setHeader_address (w : World) (key value : Bytes) :
    (w.setHeader key value).2.address = w.address ∧
      (w.setHeader key value).2.pending = w.pending := by
  unfold setHeader
  split
  · exact ⟨rfl, rfl⟩
  · split <;> exact ⟨rfl, rfl⟩

theorem Addressed.of_eq {w v : World} (h : w.Addressed)
    (heq : v.address = w.address ∧ v.pending = w.pending) : v.Addressed := by
  obtain ⟨haddress, hpending⟩ := heq
  simp only [address, Prod.mk.injEq] at haddress
  obtain ⟨-, hhost, hport, hpath⟩ := haddress
  simp only [Addressed, hostWithPort, hpending, hhost, hport, hpath]
  exact h

theorem step_addressed {w : World} (h : w.Addressed) (s : Step) :
    (w.step s).address = w.address ∧ (w.step s).Addressed := by
  obtain ⟨action, o⟩ := s
  cases hf : w.fault with
  | true =>
    rw [step, if_pos hf]
    exact ⟨rfl, h⟩
  | false =>
    have hstep : ∀ k v, w.step ⟨.setCookie k v, o⟩ = (w.setCookie k v).2 ∧
        w.step ⟨.setHeader k v, o⟩ = (w.setHeader k v).2 := fun k v => by simp [step, hf]
    cases action with
    | setCookie key value =>
      rw [(hstep key value).1]
      exact ⟨(setCookie_address w key value).1, h.of_eq (setCookie_address w key value)⟩
    | setHeader key value =>
      rw [(hstep key value).2]
      exact ⟨(setHeader_address w key value).1, h.of_eq (setHeader_address w key value)⟩
    | _ => exact (step_frame w _ (by simp) (by simp)).steady h

theorem run_addressed {w : World} (h : w.Addressed) (ls : List Step) :
    (w.run ls).address = w.address ∧ (w.run ls).Addressed :=
  Machine.always_invariant (I := fun v : World => v.address = w.address ∧ v.Addressed)
    (fun _ s hv => ⟨(step_addressed hv.2 s).1.trans hv.1, (step_addressed hv.2 s).2⟩)
    ⟨rfl, h⟩ ls

theorem run_cookies (w : World) (ls : List Step) :
    (w.run ls).cookies = assigns w.cookies (acceptedCookies w ls) :=
  Machine.run_emitted (v := fun w : World => w.cookies) step_cookies w ls

theorem run_headers (w : World) (ls : List Step) :
    (w.run ls).headers = assigns w.headers (acceptedHeaders w ls) :=
  Machine.run_emitted (v := fun w : World => w.headers) step_headers w ls

end World
end GWSockets

import Mathlib.Data.List.Nodup
import HyperTransfer.Session.Login
import HyperTransfer.Session.Refusals
import HyperTransfer.Lib.History

/-! What a `USER` says about the next `PASS`.

`seek_user` compares as many characters as it is given, so a name is found by any of its
beginnings and the order of the list decides between several (`seekUser_exact_iff`).
`USER` answers 331 where it has found a record, and for one name where it has not looked;
`honest_iff` says for which names and identities the answer tells what a password will do,
and `user_tells_pass` carries this over the runs of a session. -/
namespace HyperTransfer
open CString
open Session (Identity)

/-! ### Looking a name up -/

/-- The same name, ignoring case. -/
def sameName (a b : List Char) : Bool := a.map Char.toLower == b.map Char.toLower

/-- The record of a name is returned, and no other. -/
def FoundExactly (users : List UserList) (name : List Char) : Prop :=
  ∀ u, seekUser users name = some u ↔ u ∈ users ∧ sameName u.user name

/-- The text begins the name, ignoring case. -/
def Begins (text name : List Char) : Prop := text.map Char.toLower <+: name.map Char.toLower

instance (text name : List Char) : Decidable (Begins text name) := inferInstanceAs (Decidable (_ <+: _))

section
variable {users : List UserList} {name : List Char} {u : UserList}

theorem sameName_iff {a b : List Char} : sameName a b = true ↔ a.map Char.toLower = b.map Char.toLower := beq_iff_eq

/-- The comparison is as long as what is looked for. -/
theorem strncasecmp_begins : strncasecmp name u.user name.length = true ↔ Begins name u.user := by
  rw [strncasecmp, beq_iff_eq, List.take_length, Begins, List.map_take, List.prefix_iff_eq_take, List.length_map]

theorem Begins.of_same (h : sameName u.user name) : Begins name u.user := by
  rw [Begins, sameName_iff.mp h]

theorem seekUser_begins (h : seekUser users name = some u) : Begins name u.user := by
  rw [seekUser, List.find?_eq_some_iff_append] at h
  exact strncasecmp_begins.mp h.1

/-- Behind records none of which begins so, the next one that does is found. -/
theorem seekUser_first {before after : List UserList} (hnone : seekUser before name = none) (hu : Begins name u.user) :
    seekUser (before ++ u :: after) name = some u := by
  unfold seekUser at hnone ⊢
  rw [List.find?_append, hnone, Option.none_or, List.find?_cons, strncasecmp_begins.mpr hu]

theorem seekUser_front {before after : List UserList} {v : UserList} (h : seekUser before name = some v) :
    seekUser (before ++ after) name = some v := by
  unfold seekUser at h ⊢
  rw [List.find?_append, h, Option.some_or]

theorem seekUser_isSome (hu : u ∈ users) (hbegins : Begins name u.user) : ∃ v, seekUser users name = some v := by
  rw [← Option.isSome_iff_exists, seekUser, List.find?_isSome]
  exact ⟨u, hu, strncasecmp_begins.mpr hbegins⟩

/-- Names that are properly begun come after the name itself. -/
theorem exact_iff (hdistinct : (users.map fun u => u.user.map Char.toLower).Nodup) :
    FoundExactly users name ↔ ∀ before u after, users = before ++ u :: after → Begins name u.user →
      ¬ sameName u.user name → ∃ q ∈ before, sameName q.user name := by
  constructor
  · intro hexact before u after husers hbegins hother
    cases hq : seekUser before name with
    | none =>
      have hfound : seekUser users name = some u := by rw [husers, seekUser_first hq hbegins]
      exact absurd ((hexact u).mp hfound).2 hother
    | some q =>
      have hfound : seekUser users name = some q := by rw [husers, seekUser_front hq]
      exact ⟨q, seekUser_mem hq, ((hexact q).mp hfound).2⟩
  · intro hafter
    have hsame {v : UserList} (hv : seekUser users name = some v) : sameName v.user name := by
      by_contra hother
      obtain ⟨_, before, after, husers, hnone⟩ := List.find?_eq_some_iff_append.mp hv
      obtain ⟨q, hq, hqsame⟩ := hafter before v after husers (seekUser_begins hv) hother
      have hmiss := hnone q hq
      rw [strncasecmp_begins.mpr (.of_same hqsame)] at hmiss
      exact nomatch hmiss
    intro u
    refine ⟨fun hu => ⟨seekUser_mem hu, hsame hu⟩, fun h => ?_⟩
    obtain ⟨hu, hname⟩ := h
    obtain ⟨v, hv⟩ := seekUser_isSome hu (.of_same hname)
    have hboth : v.user.map Char.toLower = u.user.map Char.toLower :=
      (sameName_iff.mp (hsame hv)).trans (sameName_iff.mp hname).symm
    rwa [List.inj_on_of_nodup_map hdistinct (seekUser_mem hv) hu hboth] at hv

end

/-- **Lookup.** Among records of distinct names, a text finds the record of that name and
nothing else exactly when every name it properly begins comes after its own; in every order of
the list it does so exactly when it properly begins no name. -/
theorem seekUser_exact_iff (users : List UserList) (hdistinct : (users.map fun u => u.user.map Char.toLower).Nodup)
    (name : List Char) :
    (FoundExactly users name ↔ ∀ before u after, users = before ++ u :: after → Begins name u.user →
      ¬ sameName u.user name → ∃ q ∈ before, sameName q.user name) ∧
    ((∀ order : List UserList, order.Perm users → FoundExactly order name) ↔
      ∀ u ∈ users, Begins name u.user → sameName u.user name) := by
  refine ⟨exact_iff hdistinct, fun hall u hu hbegins => ?_, fun hwhole order horder => ?_⟩
  · -- in the order that puts the record first
    have horder : (u :: users.erase u).Perm users := (List.perm_cons_erase hu).symm
    have hfirst := hall _ horder
    rw [exact_iff ((horder.map _).nodup_iff.mpr hdistinct)] at hfirst
    by_contra hother
    obtain ⟨q, hq, _⟩ := hfirst [] u (users.erase u) rfl hbegins hother
    exact nomatch hq
  · rw [exact_iff ((horder.map _).nodup_iff.mpr hdistinct)]
    intro before u after husers hbegins hother
    have hu : u ∈ order := husers ▸ List.mem_append_right _ (List.mem_cons_self ..)
    exact absurd (hwhole u (horder.subset hu) hbegins) hother

/-- The shipped names begin with none of each other. -/
theorem seekUser_exact_shipped : FoundExactly Env.shipped.users "TEST1".toList :=
  (seekUser_exact_iff Env.shipped.users (by decide) "TEST1".toList).2.mpr (by decide) Env.shipped.users (.refl _)

/-- `USER test` finds a user whose name only begins so, and `USER` without a name anyone. -/
theorem seekUser_inexact : (Env.shipped.users.map fun u => u.user.map Char.toLower).Nodup ∧
    ¬ FoundExactly Env.shipped.users "test".toList ∧ ¬ FoundExactly Env.shipped.users [] := by
  refine ⟨by decide, fun h => ?_, fun h => ?_⟩
  · obtain ⟨u, hu⟩ : ∃ u, seekUser Env.shipped.users "test".toList = some u := ⟨_, rfl⟩
    have hname := ((h u).mp hu).2
    cases hu
    cases hname
  · obtain ⟨u, hu⟩ : ∃ u, seekUser Env.shipped.users [] = some u := ⟨_, rfl⟩
    have hname := ((h u).mp hu).2
    cases hu
    cases hname

/-! ### What the answer tells -/

/-- A reply of that code is among the effects. -/
def Replied (code : List Char) (es : List Effect) : Prop := ∃ buf len, .post buf len ∈ es ∧ code <+: buf

/-- The record of a name. -/
def named (users : List UserList) (name : List Char) : Option UserList := users.find? fun u => sameName u.user name

/-- A password that logs a user of that name in. -/
def Opens (users : List UserList) (name pass : List Char) : Prop :=
  sameName name "Anonymous".toList ∨ (named users name).map (·.pass) = some pass

/-- What `PASS` goes by. -/
def Session.Identity.credentials (i : Identity) : List Char × List Char × Option UserList :=
  (i.username, i.password, i.userInfo)

/-- The handler of `PASS`, on a session that has the password in hand, logs it in. -/
def Session.LogsIn (s : Session) : Prop := ∃ h, comPASS s = .ok h ∧ Replied "230".toList h.effects

/-- The answer to the `USER` in hand tells what any later password does, as long as no
other `USER` comes between. -/
def Session.Tells (users : List UserList) (s : Session) : Prop :=
  ∀ h, comUSER users s = .ok h → ∀ t : Session, t.identity.credentials = h.session.identity.credentials →
    (Replied "331".toList h.effects → (t.LogsIn ↔ Opens users s.processingCommand t.processingCommand)) ∧
      (Replied "530".toList h.effects → ¬ t.LogsIn)

/-- The names whose answer tells what a password will do. `BGIShare` is not looked up: the
password left by the last record found has to be the one of that name. A record found has
to be the one named, as far as the password goes. Where none is found, no name may have
been given before, and the anonymous user is answered the opposite of what `PASS` does. -/
def Session.Identity.Honest (users : List UserList) (i : Identity) (name : List Char) : Prop :=
  if sameName name "BGIShare".toList then i.userInfo.map (·.pass) = (named users name).map (·.pass)
  else
    match seekUser users name with
    | some u =>
      if sameName name "Anonymous".toList then sameName u.user "Anonymous".toList = true
      else
        ¬ sameName u.user "Anonymous".toList ∧ u.user ≠ [] ∧ (named users name).map (·.pass) = some u.pass
    | none => ¬ sameName name "Anonymous".toList ∧ ¬ i.Guest ∧ (i.username = [] ∨ i.userInfo = none)

/-- `PASS` finds the session of the anonymous user, or the password of the record found last. -/
def Session.Identity.Admits (i : Identity) (pass : List Char) : Prop :=
  i.Guest ∨ (¬ i.Guest ∧ i.username ≠ [] ∧ i.userInfo.map (·.pass) = some pass)

/-- What a session knows of its user is a record's, and its name ends in its array. -/
structure Session.Identity.Kept (users : List UserList) (i : Identity) : Prop where
  listed : i.Listed users
  username : i.username.length < userLen

section
variable {users : List UserList} {i j : Identity} {s t : Session} {name pass code : List Char} {h : Handled}

theorem replied_answer (text : List Char) (ret : Int) (hcode : code.length ≤ commandSize) :
    Replied code (s.answer text ret).effects ↔ code <+: text := by
  have hsize : code <+: strncpy commandSize text ↔ code <+: text := by
    unfold strncpy
    rw [List.prefix_take_iff]
    exact and_iff_left hcode
  rw [← hsize]
  constructor
  · intro hreplied
    obtain ⟨buf, len, hmem, hprefix⟩ := hreplied
    cases List.mem_singleton.mp hmem
    exact hprefix
  · exact fun hprefix => ⟨_, _, List.mem_singleton_self _, hprefix⟩

theorem called_kept (hkept : i.Kept users) (name : List Char) : (i.called users name).Kept users := by
  refine ⟨called_listed name hkept.listed, ?_⟩
  unfold Identity.called
  split
  · exact (by decide : "BGIShare".toList.length < userLen)
  · split
    · rename_i u _
      show (strncpy userLen u.user).length < userLen
      rw [strncpy_user]
      exact u.user_lt
    · split
      · exact (by decide : "Anonymous".toList.length < userLen)
      · exact hkept.username

theorem strncmp_pass (u : UserList) (pass : List Char) :
    strncmp pass (strncpy passLen u.pass) passLen ↔ u.pass = pass := by
  have hpass : u.pass.take passLen = u.pass := List.take_of_length_le (Nat.le_of_lt u.pass_lt)
  unfold strncmp strncpy
  rw [hpass, hpass, beq_iff_eq]
  constructor
  · intro hsame
    have hlen : pass.length ≤ passLen := by
      have := congrArg List.length hsame
      have := u.pass_lt
      rw [List.length_take] at *
      omega
    rw [← hsame, List.take_of_length_le hlen]
  · intro hsame
    rw [← hsame, hpass]

theorem logsIn_refused (hrefused : comPASS s = .ok (s.answer "530 Not logged in.\r\n".toList)) : ¬ s.LogsIn := by
  intro hlogs
  obtain ⟨g, hg, hreplied⟩ := hlogs
  rw [hrefused] at hg
  cases hg
  exact absurd ((replied_answer _ 0 (by decide)).mp hreplied) (by decide)

/-- A reply with a name in it fits its array. -/
theorem compose_name {front back : List Char} (hname : name.length < userLen)
    (hrest : front.length + back.length + userLen < commandSize) :
    compose [front, name, back] = .ok [front, name, back].flatten := by
  refine (concat_eq_ok (by decide)).mpr ⟨rfl, ?_⟩
  simp only [List.flatten_cons, List.flatten_nil, List.length_append, List.length_nil]
  omega

/-- Behind a name the password decides, and without a record the rights are read through
the null pointer. -/
theorem logsIn_named (hguest : ¬ s.identity.Guest) (hname : s.username ≠ []) (hlen : s.username.length < userLen) :
    s.LogsIn ↔ s.cmpPassword ∧ ∃ u, s.userInfo = some u := by
  have hg : ¬ s.cmpUsername "Anonymous".toList := hguest
  have hnot : s.cmpUsername [] = false := Bool.eq_false_iff.mpr fun h => hname (strncasecmp_empty h)
  have hpass : comPASS s =
      if s.cmpPassword then (do
        let t ← (s.setLogin true).setPermission
        return t.answer (← compose ["230 User ".toList, t.username, " logged in, proceed.\r\n".toList]))
      else .ok (s.answer "530 Not logged in.\r\n".toList) := by
    rw [comPASS, if_neg hg, hnot]
    rfl
  by_cases hp : s.cmpPassword = true
  · rw [if_pos hp] at hpass
    constructor
    · intro hlogs
      obtain ⟨g, hg, _⟩ := hlogs
      rw [hpass] at hg
      obtain ⟨t, ht, _⟩ := bind_eq_ok.mp hg
      obtain ⟨u, hu, _⟩ := setPermission_writes t ht
      exact ⟨hp, u, hu⟩
    · intro hboth
      obtain ⟨_, u, hu⟩ := hboth
      obtain ⟨t, ht, hsame⟩ : ∃ t, (s.setLogin true).setPermission = .ok t ∧ t.username = s.username := by
        unfold Session.setPermission
        have hu' : (s.setLogin true).userInfo = some u := hu
        rw [hu']
        exact ⟨_, rfl, rfl⟩
      have htext : compose ["230 User ".toList, s.username, " logged in, proceed.\r\n".toList] = .ok _ :=
        compose_name hlen (by decide)
      rw [← hsame] at htext
      refine ⟨_, hpass.trans (bind_eq_ok.mpr ⟨t, ht, bind_eq_ok.mpr ⟨_, htext, rfl⟩⟩), ?_⟩
      exact (replied_answer _ 0 (by decide)).mpr ⟨_, rfl⟩
  · rw [if_neg hp] at hpass
    exact iff_of_false (logsIn_refused hpass) fun hboth => hp hboth.1

/-- The handler of `PASS` goes by the credentials. -/
theorem logsIn_iff (hkept : s.identity.Kept users) : s.LogsIn ↔ s.identity.Admits s.processingCommand := by
  by_cases hguest : s.identity.Guest
  · refine iff_of_true ⟨_, if_pos hguest, ?_⟩ (Or.inl hguest)
    exact (replied_answer _ 0 (by decide)).mpr (by decide)
  · have hadmits : s.identity.Admits s.processingCommand ↔
        s.username ≠ [] ∧ s.userInfo.map (·.pass) = some s.processingCommand := by
      unfold Identity.Admits
      rw [or_iff_right hguest, and_iff_right hguest]
      rfl
    rw [hadmits]
    by_cases hname : s.username = []
    · apply iff_of_false
      · apply logsIn_refused
        rw [comPASS, if_neg (show ¬ s.cmpUsername "Anonymous".toList from hguest), Session.cmpUsername, hname]
        rfl
      · exact fun h => h.1 hname
    · rw [logsIn_named hguest hname hkept.username, and_iff_right hname]
      have hpassword {u : UserList} (hu : s.userInfo = some u) :
          s.cmpPassword = true ↔ u.pass = s.processingCommand := by
        rw [← strncmp_pass u, ← (hkept.listed u hu).2]
        rfl
      constructor
      · intro h
        obtain ⟨hp, u, hu⟩ := h
        exact Option.map_eq_some_iff.mpr ⟨u, hu, (hpassword hu).mp hp⟩
      · intro h
        obtain ⟨u, hu, hp⟩ := Option.map_eq_some_iff.mp h
        exact ⟨(hpassword hu).mpr hp, u, hu⟩

/-- The names `USER` answers with 331. -/
def Greeted (users : List UserList) (name : List Char) : Prop :=
  sameName name "BGIShare".toList ∨ seekUser users name ≠ none

theorem comUSER_answers (users : List UserList) (hlen : s.processingCommand.length ≤ commandSize) :
    ∃ h, comUSER users s = .ok h ∧
      (Replied "331".toList h.effects ↔ Greeted users s.processingCommand) ∧
      (Replied "530".toList h.effects ↔ ¬ Greeted users s.processingCommand) := by
  have hgreets (x : Session) {text : List Char} (htext : "331 ".toList <+: text)
      (hgreeted : Greeted users s.processingCommand) :
      (Replied "331".toList (x.answer text).effects ↔ Greeted users s.processingCommand) ∧
        (Replied "530".toList (x.answer text).effects ↔ ¬ Greeted users s.processingCommand) := by
    obtain ⟨rest, rfl⟩ := htext
    rw [replied_answer _ 0 (by decide), replied_answer _ 0 (by decide)]
    refine ⟨iff_of_true ⟨_, rfl⟩ hgreeted, iff_of_false (fun h => ?_) (not_not_intro hgreeted)⟩
    obtain ⟨_, h⟩ := h
    exact nomatch List.head_eq_of_cons_eq h
  obtain ⟨t, hnamed, hcommand, _⟩ := comUSER_named users s
  have hshare : t.cmpProcessingCommand "BGIShare".toList = true ↔ sameName s.processingCommand "BGIShare".toList := by
    rw [Session.cmpProcessingCommand, hcommand, strncasecmp_whole hlen (by decide), sameName_iff]
  rw [hnamed, Session.userNamed]
  split
  · rename_i hb
    exact ⟨_, rfl, hgreets _ (by decide) (Or.inl (hshare.mp hb))⟩
  · rename_i hb
    cases hu : seekUser users t.processingCommand with
    | some u =>
      rw [hcommand] at hu
      have hshort : s.processingCommand.length < userLen := by
        have hle := (seekUser_begins hu).length_le
        rw [List.length_map, List.length_map] at hle
        exact Nat.lt_of_le_of_lt hle u.user_lt
      have htext : compose ["331 Password required for ".toList, s.processingCommand, "\r\n".toList] = .ok _ :=
        compose_name hshort (by decide)
      rw [← hcommand] at htext
      have hsome : seekUser users s.processingCommand ≠ none := by
        rw [hu]
        exact Option.some_ne_none u
      exact ⟨_, bind_eq_ok.mpr ⟨_, rfl, bind_eq_ok.mpr ⟨_, htext, rfl⟩⟩, hgreets _ ⟨_, rfl⟩ (Or.inr hsome)⟩
    | none =>
      rw [hcommand] at hu
      have hnot : ¬ Greeted users s.processingCommand := by
        intro hgreeted
        rcases hgreeted with h | h
        · exact hb (hshare.mpr h)
        · exact h hu
      refine ⟨_, rfl, ?_⟩
      rw [replied_answer _ 0 (by decide), replied_answer _ 0 (by decide)]
      exact ⟨iff_of_false (by decide) hnot, iff_of_true (by decide) hnot⟩

/-- A name that fits its array is compared as a whole. -/
theorem guest_iff (hlen : i.username.length < userLen) : i.Guest ↔ sameName i.username "Anonymous".toList := by
  rw [Identity.Guest, strncasecmp_whole (Nat.le_of_lt hlen) (by decide), sameName_iff]

theorem sameName_left {a b c : List Char} (h : sameName a b) : sameName a c ↔ sameName b c := by
  rw [sameName_iff, sameName_iff, sameName_iff.mp h]

/-- No password opens more than one record. -/
theorem exists_other (o : Option (List Char)) : ∃ pass, o ≠ some pass := by
  cases o with
  | none => exact ⟨[], fun h => nomatch h⟩
  | some p =>
    refine ⟨'x' :: p, fun h => ?_⟩
    have hlen := congrArg List.length (Option.some.inj h)
    rw [List.length_cons] at hlen
    omega

/-- A comparison over the whole command array. -/
theorem strncasecmp_sameName {word : List Char} (hname : name.length ≤ commandSize)
    (hword : word.length ≤ commandSize) :
    strncasecmp name word commandSize = true ↔ sameName name word := by
  rw [strncasecmp_whole hname hword, sameName_iff]

/-- What a password does is what the answer has said. -/
def Session.Identity.Foretold (users : List UserList) (i : Identity) (name : List Char) : Prop :=
  ∀ pass, (Greeted users name → ((i.called users name).Admits pass ↔ Opens users name pass)) ∧
    (¬ Greeted users name → ¬ (i.called users name).Admits pass)

theorem foretold_greeted (h : Greeted users name) :
    i.Foretold users name ↔ ∀ pass, (i.called users name).Admits pass ↔ Opens users name pass :=
  forall_congr' fun _ => ⟨fun hboth => hboth.1 h, fun hall => ⟨fun _ => hall, fun hnot => absurd h hnot⟩⟩

theorem foretold_unknown (h : ¬ Greeted users name) :
    i.Foretold users name ↔ ∀ pass, ¬ (i.called users name).Admits pass :=
  forall_congr' fun _ => ⟨fun hboth => hboth.2 h, fun hall => ⟨fun hg => absurd hg h, fun _ => hall⟩⟩

theorem forall_pass_iff {o p : Option (List Char)} : (∀ pass, o = some pass ↔ p = some pass) ↔ o = p :=
  ⟨fun h => Option.ext h, fun h _ => by rw [h]⟩

/-- `BGIShare` is never looked up. -/
theorem honest_share (hb : sameName name "BGIShare".toList) (hlen : name.length ≤ commandSize) :
    i.Foretold users name ↔ i.userInfo.map (·.pass) = (named users name).map (·.pass) := by
  have hcalled : i.called users name = {i with username := "BGIShare".toList} := by
    rw [Identity.called, if_pos ((strncasecmp_sameName hlen (by decide)).mpr hb)]
  have hguest : ¬ ({i with username := "BGIShare".toList} : Identity).Guest := by
    show ¬ strncasecmp "BGIShare".toList "Anonymous".toList userLen = true
    decide
  have hadmits (pass : List Char) : (i.called users name).Admits pass ↔ i.userInfo.map (·.pass) = some pass := by
    rw [hcalled, Identity.Admits, or_iff_right hguest, and_iff_right hguest]
    exact and_iff_right (by decide : "BGIShare".toList ≠ [])
  have hopens (pass : List Char) : Opens users name pass ↔ (named users name).map (·.pass) = some pass := by
    apply or_iff_right
    rw [sameName_left hb]
    decide
  rw [foretold_greeted (Or.inl hb), ← forall_pass_iff]
  exact forall_congr' fun pass => by rw [hadmits, hopens]

/-- A record that is found. -/
theorem honest_found {u : UserList} (hb : ¬ sameName name "BGIShare".toList) (hlen : name.length ≤ commandSize)
    (hu : seekUser users name = some u) :
    i.Foretold users name ↔
      if sameName name "Anonymous".toList then sameName u.user "Anonymous".toList = true
      else ¬ sameName u.user "Anonymous".toList ∧ u.user ≠ [] ∧ (named users name).map (·.pass) = some u.pass := by
  have hgreeted : Greeted users name := by
    refine Or.inr ?_
    rw [hu]
    exact Option.some_ne_none u
  have hcalled : i.called users name =
      {i with userInfo := some u, username := u.user, password := strncpy passLen u.pass} := by
    rw [Identity.called, if_neg fun h => hb ((strncasecmp_sameName hlen (by decide)).mp h), hu]
    simp only [strncpy_user]
  have hguest : (i.called users name).Guest ↔ sameName u.user "Anonymous".toList := by
    rw [hcalled]
    exact guest_iff u.user_lt
  have hadmits (pass : List Char) : (i.called users name).Admits pass ↔
      sameName u.user "Anonymous".toList ∨ (¬ sameName u.user "Anonymous".toList ∧ u.user ≠ [] ∧ u.pass = pass) := by
    rw [Identity.Admits, hguest, hcalled, Option.map_some, Option.some.injEq]
  rw [foretold_greeted hgreeted]
  split
  · rename_i hanonymous
    have hopens (pass : List Char) : Opens users name pass := Or.inl hanonymous
    constructor
    · intro hall
      obtain ⟨pass, hpass⟩ := exists_other (some u.pass)
      rcases (hadmits pass).mp ((hall pass).mpr (hopens pass)) with h | ⟨_, _, h⟩
      · exact h
      · exact absurd (congrArg some h) hpass
    · exact fun h pass => iff_of_true ((hadmits pass).mpr (Or.inl h)) (hopens pass)
  · rename_i hanonymous
    have hopens (pass : List Char) : Opens users name pass ↔ (named users name).map (·.pass) = some pass :=
      or_iff_right hanonymous
    by_cases hfound : sameName u.user "Anonymous".toList = true
    · rw [iff_false_right (fun h => h.1 hfound)]
      intro hall
      obtain ⟨pass, hpass⟩ := exists_other ((named users name).map (·.pass))
      exact hpass ((hopens pass).mp ((hall pass).mp ((hadmits pass).mpr (Or.inl hfound))))
    · have hadmits (pass : List Char) : (i.called users name).Admits pass ↔ u.user ≠ [] ∧ some u.pass = some pass := by
        rw [hadmits, or_iff_right hfound, and_iff_right hfound, Option.some.injEq]
      rw [and_iff_right hfound]
      by_cases hempty : u.user = []
      · -- the record found is the one named, and no password is taken without a name
        have hname : name = [] := by
          have hprefix := seekUser_begins hu
          rw [Begins, hempty, List.map_nil, List.prefix_nil, List.map_eq_nil_iff] at hprefix
          exact hprefix
        have hsome : ∃ v, named users name = some v := by
          rw [← Option.isSome_iff_exists, named, List.find?_isSome]
          exact ⟨u, seekUser_mem hu, by rw [hname, hempty]; rfl⟩
        obtain ⟨v, hv⟩ := hsome
        refine iff_of_false (fun hall => ?_) fun h => h.1 hempty
        exact ((hadmits v.pass).mp ((hall v.pass).mpr ((hopens v.pass).mpr (by rw [hv]; rfl)))).1 hempty
      · rw [and_iff_right hempty, eq_comm, ← forall_pass_iff]
        exact forall_congr' fun pass => by rw [hadmits, hopens, and_iff_right hempty]

/-- No record is found. -/
theorem honest_unknown (hb : ¬ sameName name "BGIShare".toList) (hlen : name.length ≤ commandSize)
    (hu : seekUser users name = none) :
    i.Foretold users name ↔ ¬ sameName name "Anonymous".toList ∧ ¬ i.Guest ∧ (i.username = [] ∨ i.userInfo = none) := by
  have hnot : ¬ Greeted users name := by
    intro hgreeted
    rcases hgreeted with h | h
    · exact hb h
    · exact h hu
  have hcalled : i.called users name =
      if strncasecmp name "Anonymous".toList commandSize then {i with username := "Anonymous".toList} else i := by
    rw [Identity.called, if_neg fun h => hb ((strncasecmp_sameName hlen (by decide)).mp h), hu]
  rw [foretold_unknown hnot]
  by_cases ha : sameName name "Anonymous".toList = true
  · rw [if_pos ((strncasecmp_sameName hlen (by decide)).mpr ha)] at hcalled
    refine iff_of_false (fun hall => hall [] (Or.inl ?_)) fun h => h.1 ha
    rw [hcalled]
    show strncasecmp "Anonymous".toList "Anonymous".toList userLen = true
    decide
  · rw [if_neg fun h => ha ((strncasecmp_sameName hlen (by decide)).mp h)] at hcalled
    rw [hcalled, and_iff_right ha]
    constructor
    · intro hall
      have hguest : ¬ i.Guest := fun h => hall [] (Or.inl h)
      refine ⟨hguest, ?_⟩
      by_contra hneither
      rw [not_or] at hneither
      obtain ⟨hname, hinfo⟩ := hneither
      obtain ⟨u, hu⟩ := Option.ne_none_iff_exists'.mp hinfo
      exact hall u.pass (Or.inr ⟨hguest, hname, by rw [hu]; rfl⟩)
    · intro h pass hadmits
      obtain ⟨hguest, hneither⟩ := h
      rcases hadmits with h | ⟨_, hname, hpass⟩
      · exact hguest h
      · rcases hneither with h | h
        · exact hname h
        · rw [h] at hpass
          exact nomatch hpass

/-- The answer to a `USER` tells what a password will do exactly when the name is honest. -/
theorem honest_iff (hlen : name.length ≤ commandSize) :
    i.Foretold users name ↔ i.Honest users name := by
  unfold Identity.Honest
  by_cases hb : sameName name "BGIShare".toList = true
  · rw [if_pos hb]
    exact honest_share hb hlen
  · rw [if_neg hb]
    cases hu : seekUser users name with
    | some u => exact honest_found hb hlen hu
    | none => exact honest_unknown hb hlen hu

/-! ### Steps -/

theorem admits_credentials (h : i.credentials = j.credentials) : i.Admits pass ↔ j.Admits pass := by
  injection h with husername h
  injection h with _ hinfo
  unfold Identity.Admits Identity.Guest
  rw [husername, hinfo]

theorem kept_credentials (h : i.credentials = j.credentials) (hkept : j.Kept users) : i.Kept users := by
  injection h with husername h
  injection h with hpassword hinfo
  refine ⟨?_, husername ▸ hkept.username⟩
  intro u hu
  rw [hpassword]
  exact hkept.listed u (hinfo ▸ hu)

/-- A command other than `USER` leaves the credentials. -/
theorem next_credentials {c : Option (Command × List Char)} (hn : Identity.Next users c i j)
    (hc : ∀ name, c ≠ some (.user, name)) : j.credentials = i.credentials := by
  cases hn with
  | user name => exact absurd rfl (hc name)
  | _ => rfl

theorem next_user (hn : Identity.Next users (some (.user, name)) i j) : j = i.called users name := by
  cases hn with
  | other _ _ _ hl => exact nomatch hl
  | user => rfl

/-- The handler's answer tells what the handler of `PASS` does exactly when the name is honest. -/
theorem tells_iff (hkept : s.identity.Kept users) (hlen : s.processingCommand.length ≤ commandSize) :
    s.Tells users ↔ s.identity.Honest users s.processingCommand := by
  obtain ⟨h, hh, hyes, hno⟩ := comUSER_answers users hlen
  have hidentity := (comUSER_writes users h hh).2.2
  have hlogs {t : Session} (ht : t.identity.credentials = h.session.identity.credentials) :
      t.LogsIn ↔ (s.identity.called users s.processingCommand).Admits t.processingCommand := by
    rw [hidentity] at ht
    rw [logsIn_iff (kept_credentials ht (called_kept hkept _)), admits_credentials ht]
  rw [← honest_iff hlen]
  constructor
  · intro htells pass
    obtain ⟨t, ht, htext⟩ : ∃ t : Session, t.identity.credentials = h.session.identity.credentials ∧
        t.processingCommand = pass := ⟨{h.session with processingCommand := pass}, rfl, rfl⟩
    have hpass := htells h hh t ht
    rwa [hyes, hno, hlogs ht, htext] at hpass
  · intro hforetold h' hh' t ht
    rw [hh] at hh'
    cases hh'
    rw [hyes, hno, hlogs ht]
    exact hforetold t.processingCommand

end

section
variable {env : Env} {name pass code : List Char} {e : Edge SessionInput Session Effect}

theorem replied_dispatch (line : List Char) (es : List Effect) :
    Replied code (.dispatch line :: es) ↔ Replied code es := by
  unfold Replied
  simp

/-- A step that handles a command runs its handler on a session with the same identity, the
argument in hand. -/
theorem takes_handles {cmd : Command} {text : List Char} (h : (session env).Takes e)
    (hc : e.input.task.handles e.before = some (cmd, text)) :
    ∃ s g, cmd.handle env e.input.fs s = .ok g ∧ s.identity = e.before.identity ∧ s.processingCommand = text ∧
      ∀ code, Replied code e.effects ↔ Replied code g.effects := by
  obtain ⟨r, hr, _, heffects⟩ := takes_roll h
  rcases rollSession_cases r hr with ⟨hline, _⟩ | ⟨deal, u, g, hline, hu, _, hg, _, _, hes⟩
  · rw [SessionTask.handles, hline] at hc
    cases hc
  · rw [handles_of_line hline] at hc
    injection hc with hc
    injection hc with hcmd htext
    rw [hcmd] at hg
    refine ⟨_, g, hg, Session.identity_of_core hu, htext, fun code => ?_⟩
    rw [← heffects, hes, replied_dispatch]

/-- A `PASS` logs in when its password is admitted. -/
theorem takes_pass (h : (session env).Takes e) (hkept : e.before.identity.Kept env.users)
    (hc : e.input.task.handles e.before = some (.pass, pass)) :
    Replied "230".toList e.effects ↔ e.before.identity.Admits pass := by
  obtain ⟨s, g, hg, hidentity, htext, hreplied⟩ := takes_handles h hc
  rw [← hidentity] at hkept ⊢
  rw [hreplied, ← htext, ← logsIn_iff hkept]
  constructor
  · exact fun hr => ⟨g, hg, hr⟩
  · intro hlogs
    obtain ⟨g', hg', hr⟩ := hlogs
    rw [hg.symm.trans hg' |> Except.ok.inj]
    exact hr

/-- A `USER` answers as its name is greeted. -/
theorem takes_user (h : (session env).Takes e) (hc : e.input.task.handles e.before = some (.user, name)) :
    (Replied "331".toList e.effects ↔ Greeted env.users name) ∧
      (Replied "530".toList e.effects ↔ ¬ Greeted env.users name) := by
  obtain ⟨s, g, hg, _, htext, hreplied⟩ := takes_handles h hc
  have hlen : s.processingCommand.length ≤ commandSize := htext ▸ handles_length hc
  obtain ⟨g', hg', hanswers⟩ := comUSER_answers env.users hlen
  rw [hreplied, hreplied, ← htext, hg.symm.trans hg' |> Except.ok.inj]
  exact hanswers

end

/-! ### Runs -/

/-- What a `USER` was given and what it was answered. -/
def Edge.names (e : Edge SessionInput Session Effect) : Option (List Char × List Effect) :=
  match e.input.task.handles e.before with
  | some (.user, name) => some (name, e.effects)
  | _ => none

/-- A `PASS` does what the last `USER` before it was told. -/
def Foretells (users : List UserList) (now : List (Edge SessionInput Session Effect))
    (e : Edge SessionInput Session Effect) : Prop :=
  ∀ name es pass, History.latest Edge.names now = some (name, es) → e.input.task.handles e.before = some (.pass, pass) →
    (Replied "331".toList es → (Replied "230".toList e.effects ↔ Opens users name pass)) ∧
      (Replied "530".toList es → ¬ Replied "230".toList e.effects)

/-- What the last answer to a `USER` has told. -/
def Told (users : List UserList) (past : List (Edge SessionInput Session Effect)) (i : Identity) : Prop :=
  ∀ name es, History.latest Edge.names past = some (name, es) →
    (Replied "331".toList es → ∀ pass, i.Admits pass ↔ Opens users name pass) ∧
      (Replied "530".toList es → ∀ pass, ¬ i.Admits pass)

theorem names_user {e : Edge SessionInput Session Effect} {name : List Char}
    (hc : e.input.task.handles e.before = some (.user, name)) : e.names = some (name, e.effects) := by
  rw [Edge.names, hc]

theorem names_other {e : Edge SessionInput Session Effect}
    (hc : ∀ name, e.input.task.handles e.before ≠ some (.user, name)) : e.names = none := by
  unfold Edge.names
  split
  · rename_i name h
    exact absurd h (hc name)
  · rfl

theorem takes_kept {env : Env} {e : Edge SessionInput Session Effect} (h : (session env).Takes e)
    (hkept : e.before.identity.Kept env.users) : e.after.identity.Kept env.users := by
  have hn := takes_next h
  by_cases hc : ∃ name, e.input.task.handles e.before = some (.user, name)
  · obtain ⟨name, hc⟩ := hc
    rw [hc] at hn
    rw [next_user hn]
    exact called_kept hkept name
  · exact kept_credentials (next_credentials hn (not_exists.mp hc)) hkept

/-- A step whose `USER`, if it is one, is honest keeps what has been told true. -/
theorem takes_told {env : Env} {past : List (Edge SessionInput Session Effect)} {e : Edge SessionInput Session Effect}
    (h : (session env).Takes e)
    (hhonest : ∀ name, e.input.task.handles e.before = some (.user, name) → e.before.identity.Honest env.users name)
    (htold : Told env.users past e.before.identity) : Told env.users (past ++ [e]) e.after.identity := by
  have hn := takes_next h
  intro name es hlatest
  by_cases hc : ∃ name, e.input.task.handles e.before = some (.user, name)
  · obtain ⟨name', hc⟩ := hc
    rw [History.latest_said (names_user hc)] at hlatest
    cases hlatest
    obtain ⟨hyes, hno⟩ := takes_user h hc
    have hforetold := (honest_iff (handles_length hc)).mpr (hhonest name hc)
    rw [hc] at hn
    rw [hyes, hno, next_user hn]
    exact ⟨fun hg pass => (hforetold pass).1 hg, fun hg pass => (hforetold pass).2 hg⟩
  · rw [not_exists] at hc
    rw [History.latest_silent (names_other hc)] at hlatest
    obtain ⟨hyes, hno⟩ := htold name es hlatest
    have hsame := next_credentials hn hc
    refine ⟨fun hr pass => ?_, fun hr pass => ?_⟩
    · rw [admits_credentials hsame]
      exact hyes hr pass
    · rw [admits_credentials hsame]
      exact hno hr pass

/-- **USER and PASS.** In every state of a session the answer to a `USER` tells what any later
password does exactly when the name is honest there; and in a run where every `USER` is, every
`PASS` does what the last `USER` was told. -/
theorem user_tells_pass (env : Env) (address : Nat) (garbage : List Char) (t : SessionTask) (h : Handled)
    (hnew : acceptSession env.config address garbage t = .ok h) (inputs : List SessionInput) :
    (∀ s ∈ (session env).states h.session inputs, ∀ name : List Char, name.length ≤ commandSize →
      (Session.Tells env.users {s with processingCommand := name} ↔ s.identity.Honest env.users name)) ∧
    ((∀ e ∈ (session env).trace h.session inputs, ∀ name, e.input.task.handles e.before = some (.user, name) →
        e.before.identity.Honest env.users name) →
      History.Always (Foretells env.users) ((session env).trace h.session inputs)) := by
  have hfirst : h.session.identity.Kept env.users := by
    rw [(acceptSession_writes _ _ _ _ h hnew).2.2.1]
    exact ⟨fun u hu => (nomatch hu), (by decide : ([] : List Char).length < userLen)⟩
  constructor
  · intro s hs name hlen
    have hkept : s.identity.Kept env.users :=
      Machine.invariant_states (P := fun s : Session => s.identity.Kept env.users) (fun _ => True) hfirst
        (fun e he _ hk => takes_kept he hk) (fun _ _ => trivial) s hs
    exact tells_iff (s := {s with processingCommand := name}) hkept hlen
  · intro hhonest now e rest hrun name es pass hlatest hc
    have hsteps := History.always_history (m := session env)
      (H := fun past s => s.identity.Kept env.users ∧ Told env.users past s.identity)
      (C := fun _ e => ∀ name, e.input.task.handles e.before = some (.user, name) →
        e.before.identity.Honest env.users name)
      [] ⟨hfirst, fun _ _ hnone => nomatch hnone⟩
      (fun past e he hC hpast => ⟨takes_kept he hpast.1, takes_told he hC hpast.2⟩)
      (fun now e rest hrun => hhonest e (hrun ▸ List.mem_append_right _ (List.mem_cons_self ..)))
    obtain ⟨htakes, hkept, htold⟩ := hsteps now e rest hrun
    obtain ⟨hyes, hno⟩ := htold name es hlatest
    rw [takes_pass htakes hkept hc]
    exact ⟨fun hr => hyes hr pass, fun hr => hno hr pass⟩

theorem user_tells_pass_share :
    ∃ h, acceptSession Env.shipped.config 0 [] (.accept 7 "10.0.0.9".toList) = .ok h ∧
      History.Always (Foretells Env.shipped.users) ((session Env.shipped).trace h.session shareLogin) := by
  refine ⟨_, rfl, ?_⟩
  apply (user_tells_pass Env.shipped 0 [] (.accept 7 "10.0.0.9".toList) _ rfl shareLogin).2
  intro e he name hc
  have hnamed : name = "share".toList := by
    have hname : e.names.all (fun p => p.1 = "share".toList) = true := by
      clear hc
      revert e
      decide +kernel
    rw [names_user hc] at hname
    exact of_decide_eq_true hname
  have hfound : seekUser Env.shipped.users "share".toList = Env.shipped.users.head? := by decide
  rw [hnamed, Identity.Honest, if_neg (by decide), hfound]
  exact ⟨by decide, by decide, by decide⟩

/-- `USER Anonymous` is answered 530, and the next `PASS` logs in. -/
theorem user_foretells_anonymous :
    ∃ h, acceptSession Env.shipped.config 0 [] (.accept 7 "10.0.0.9".toList) = .ok h ∧
      ∃ e p, (session Env.shipped).trace h.session
          [.read (.constant none) 7 "USER Anonymous\r\n".toList, .read (.constant none) 7 "PASS x\r\n".toList] = [e, p] ∧
        e.names = some ("Anonymous".toList, e.effects) ∧ Replied "530".toList e.effects ∧
        p.input.task.handles p.before = some (.pass, "x".toList) ∧ Replied "230".toList p.effects :=
  ⟨_, rfl, _, _, rfl, by decide +kernel, ⟨_, _, List.mem_cons_of_mem _ (List.mem_singleton_self _), by decide⟩,
    by decide +kernel, ⟨_, _, List.mem_cons_of_mem _ (List.mem_singleton_self _), by decide⟩⟩

end HyperTransfer

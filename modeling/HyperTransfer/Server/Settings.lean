import HyperTransfer.Server.Saving
import HyperTransfer.Session.Commands

/-! The settings of the server, as `init_config` takes them from the configuration file.

Every setting is looked up under its name, and what is not in the file stays as it was. A file of settings, remarks
and blank lines takes effect as if the settings were assigned one after the other (`settings_read`). -/
namespace HyperTransfer
open CString Trimming

/-- `_ftpserver_config`. -/
structure FtpserverConfig where
  serverHome : List Char := []
  logConfigFile : List Char := []
  sessionThreadNum : Int := 0
  diskThreadNum : Int := 0
  diskNum : Int := 0
  clientLife : Int := 0
  timeInterval : Int := 0
  serverPort : Int := 0
  serverLanIp : List Char := []
  serverWanIp : List Char := []
  initPath : List Char := []
  authIp : List Char := []
  authPort : Int := 0
  startPort : Int := 0
  endPort : Int := 0
deriving DecidableEq

namespace ConfigFile

/-- `string_as_T<int>`: `>>` stores `0` where there is no number, and what fits of one that is too large; of a text
of blanks it stores nothing, and the variable keeps what was there. -/
def stringAsInt (garbage : Int) (s : List Char) : Int :=
  if s.dropWhile isSpace = [] then garbage else max (-2 ^ 31) (min ((scanLong s).getD 0) (2 ^ 31 - 1))

/-- The constructor with a file name, if there is such a file. -/
def ofFile (file : Option (List Char)) : Option ConfigFile :=
  file.map fun text => unread.load ⟨text, false, false⟩

end ConfigFile

/-- What `init_config` reads into the settings. `garbage` is what the variable `string_as_T` reads the setting of a name
into held before. -/
def FtpserverConfig.readFrom (config : ConfigFile) (garbage : List Char → Int) (g : FtpserverConfig) : FtpserverConfig :=
  let readInt (var : Int) (key : List Char) :=
    (config.readInto (ConfigFile.stringAsInt (garbage key)) var key).1
  {g with
    serverHome := (config.readInto id g.serverHome "server_home".toList).1
    logConfigFile := (config.readInto id g.logConfigFile "server_log_config_file".toList).1
    sessionThreadNum := readInt g.sessionThreadNum "session_thread_num".toList
    diskThreadNum := readInt g.diskThreadNum "disk_thread_num".toList
    clientLife := readInt g.clientLife "client_life".toList
    timeInterval := readInt g.timeInterval "time_interval".toList
    serverPort := readInt g.serverPort "server_port".toList
    serverLanIp := (config.readInto id g.serverLanIp "server_LAN_ip".toList).1
    serverWanIp := (config.readInto id g.serverWanIp "server_WAN_ip".toList).1
    initPath := (config.readInto id g.initPath "init_path".toList).1
    authIp := (config.readInto id g.authIp "auth_ip".toList).1
    authPort := readInt g.authPort "auth_port".toList
    startPort := readInt g.startPort "start_port".toList
    endPort := readInt g.endPort "end_port".toList }

/-- `init_config`. -/
def initConfig (file : Option (List Char)) (garbage : List Char → Int) (g : FtpserverConfig) : Bool × FtpserverConfig :=
  match ConfigFile.ofFile file with
  | none => (false, g)
  | some config => (true, g.readFrom config garbage)

/-! ### Assignments -/

/-- The setting of a name gets a value; other names are not settings. -/
def FtpserverConfig.assign (garbage : List Char → Int) (g : FtpserverConfig) (p : List Char × List Char) :
    FtpserverConfig :=
  let number (key : List Char) := ConfigFile.stringAsInt (garbage key) p.2
  {g with
    serverHome := if p.1 = "server_home".toList then p.2 else g.serverHome
    logConfigFile := if p.1 = "server_log_config_file".toList then p.2 else g.logConfigFile
    sessionThreadNum := if p.1 = "session_thread_num".toList then number "session_thread_num".toList else g.sessionThreadNum
    diskThreadNum := if p.1 = "disk_thread_num".toList then number "disk_thread_num".toList else g.diskThreadNum
    clientLife := if p.1 = "client_life".toList then number "client_life".toList else g.clientLife
    timeInterval := if p.1 = "time_interval".toList then number "time_interval".toList else g.timeInterval
    serverPort := if p.1 = "server_port".toList then number "server_port".toList else g.serverPort
    serverLanIp := if p.1 = "server_LAN_ip".toList then p.2 else g.serverLanIp
    serverWanIp := if p.1 = "server_WAN_ip".toList then p.2 else g.serverWanIp
    initPath := if p.1 = "init_path".toList then p.2 else g.initPath
    authIp := if p.1 = "auth_ip".toList then p.2 else g.authIp
    authPort := if p.1 = "auth_port".toList then number "auth_port".toList else g.authPort
    startPort := if p.1 = "start_port".toList then number "start_port".toList else g.startPort
    endPort := if p.1 = "end_port".toList then number "end_port".toList else g.endPort }

theorem readInto_insert {T : Type} (asT : List Char → T) (config : ConfigFile) (var : T) (key name value : List Char) :
    ({config with myContents := config.myContents.insert name value} : ConfigFile).readInto asT var key =
      if name = key then (asT value, true) else config.readInto asT var key := by
  unfold ConfigFile.readInto
  dsimp only
  rw [Std.ExtTreeMap.getElem?_insert]
  by_cases h : name = key
  · rw [if_pos h, if_pos (Std.LawfulEqOrd.compare_eq_iff_eq.mpr h)]
  · rw [if_neg h, if_neg fun heq => h (Std.LawfulEqOrd.eq_of_compare heq)]

theorem readFrom_insert (config : ConfigFile) (garbage : List Char → Int) (g : FtpserverConfig) (name value : List Char) :
    g.readFrom {config with myContents := config.myContents.insert name value} garbage =
      (g.readFrom config garbage).assign garbage (name, value) := by
  simp only [FtpserverConfig.readFrom, FtpserverConfig.assign, readInto_insert, apply_ite Prod.fst, id_eq]

theorem readFrom_insertMany (config : ConfigFile) (garbage : List Char → Int) (g : FtpserverConfig)
    (entries : List (List Char × List Char)) :
    g.readFrom {config with myContents := config.myContents.insertMany entries} garbage =
      entries.foldl (FtpserverConfig.assign garbage) (g.readFrom config garbage) := by
  induction entries generalizing config with
  | nil => rfl
  | cons p entries ih =>
    have hrest := ih {config with myContents := config.myContents.insert p.1 p.2}
    rw [readFrom_insert] at hrest
    rw [List.foldl_cons, ← hrest, Std.ExtTreeMap.insertMany_cons]

/-- What is not in the file stays as it was. -/
theorem readFrom_empty (config : ConfigFile) (garbage : List Char → Int) (g : FtpserverConfig) (h : config.myContents = ∅) :
    g.readFrom config garbage = g := by
  simp only [FtpserverConfig.readFrom, ConfigFile.readInto, h, Std.ExtTreeMap.getElem?_empty]

/-! ### Lines of the file -/

/-- A line: a setting, with a remark behind it or not, blanks, or a remark. -/
inductive SettingLine where
  | setting (key value note : List Char)
  | blank (blanks : List Char)
  | remark (blanks text : List Char)

namespace SettingLine
open ConfigFile

def text : SettingLine → List Char
  | setting key value note => key ++ '=' :: (value ++ note)
  | blank blanks => blanks
  | remark blanks text => blanks ++ '#' :: text

/-- What the line says. -/
def entries : SettingLine → List (List Char × List Char)
  | setting key value _ => [(trimmed key, trimmed value)]
  | blank _ => []
  | remark _ _ => []

/-- The parts of a line are what they are named. -/
def Valid : SettingLine → Prop
  | setting key value note =>
    '\n' ∉ key ++ value ++ note ∧ '=' ∉ key ∧ '#' ∉ key ++ value ∧ (note = [] ∨ note.head? = some '#') ∧
      ¬ "EndConfigFile".toList <:+: key ++ '=' :: value
  | blank blanks => '\n' ∉ blanks ∧ trimmed blanks = []
  | remark blanks text => '\n' ∉ blanks ++ text ∧ trimmed blanks = []

instance : (l : SettingLine) → Decidable l.Valid
  | setting _ _ _ => inferInstanceAs (Decidable (_ ∧ _))
  | blank _ => inferInstanceAs (Decidable (_ ∧ _))
  | remark _ _ => inferInstanceAs (Decidable (_ ∧ _))

end SettingLine

namespace ConfigFile

variable {s : Reading} {l : SettingLine}

/-- A setting takes the place of the open entry. -/
theorem takeLine_setting {key value note : List Char} (hvalid : (SettingLine.setting key value note).Valid)
    (hs : s.Open) : unread.takeLine s (key ++ '=' :: (value ++ note)) = .within s.stored key value := by
  obtain ⟨_, hkey, hboth, hnote, hsentry⟩ := hvalid
  rw [List.mem_append, not_or] at hboth
  have hplain : '#' ∉ key ++ '=' :: value := by
    rw [List.mem_append, List.mem_cons, not_or, not_or]
    exact ⟨hboth.1, by decide, hboth.2⟩
  have hcut : before (key ++ '=' :: (value ++ note)) unread.myComment = key ++ '=' :: value := by
    cases note with
    | nil =>
      rw [List.append_nil]
      exact before_of_not fun hin => hplain (List.singleton_infix_iff .. |>.mp hin)
    | cons c text =>
      have hc : c = '#' := by
        obtain hnil | hhead := hnote
        · exact nomatch hnil
        · exact Option.some.inj hhead
      subst hc
      rw [← List.cons_append, ← List.append_assoc, before]
      rw [show unread.myComment = ['#'] from rfl, dropInfix?_singleton hplain]
  have hfresh (m : Contents) : unread.fresh m (key ++ '=' :: (value ++ note)) = .within m key value := by
    have hended : ¬ unread.Ended (key ++ '=' :: value) := fun hin => hsentry hin.2
    rw [fresh, hcut, if_neg hended, show unread.myDelimiter = ['='] from rfl, dropInfix?_singleton hkey]
  cases s with
  | ended m => exact hs.elim
  | between m => exact hfresh m
  | within m k v =>
    have hends : unread.Ends (key ++ '=' :: (value ++ note)) := by
      refine Or.inr (Or.inl ?_)
      rw [hcut]
      exact ⟨key, value, by rw [List.append_assoc]; rfl⟩
    rw [takeLine, if_pos hends]
    exact hfresh _

/-- Blanks may end an entry, and no more. -/
theorem takeLine_blank {blanks : List Char} (hblank : trimmed blanks = []) (hs : s.Open) :
    (unread.takeLine s blanks).Open ∧ (unread.takeLine s blanks).stored = s.stored := by
  cases s with
  | ended m => exact hs.elim
  | between m =>
    rw [takeLine, fresh_blank unread_sound hblank]
    exact ⟨trivial, rfl⟩
  | within m k v =>
    have hends : unread.Ends blanks := Or.inl hblank
    rw [takeLine, if_pos hends, fresh_blank unread_sound hblank]
    exact ⟨trivial, rfl⟩

/-- A remark gives a value no more than blanks. -/
theorem takeLine_remark {blanks text : List Char} (hblank : trimmed blanks = []) (hs : s.Open) :
    (unread.takeLine s (blanks ++ '#' :: text)).Open ∧ (unread.takeLine s (blanks ++ '#' :: text)).stored = s.stored := by
  have hblanks := trim_eq_nil.mp hblank
  have hcut : before (blanks ++ '#' :: text) unread.myComment = blanks := by
    rw [before, show unread.myComment = ['#'] from rfl, dropInfix?_singleton]
    intro hmem
    cases hblanks '#' hmem
  obtain ⟨hdelim, hended⟩ := unread_sound.not_infix hblank
  cases s with
  | ended m => exact hs.elim
  | between m =>
    rw [takeLine, fresh_between]
    · exact ⟨trivial, rfl⟩
    · rw [hcut]
      exact hdelim
    · rw [hcut]
      exact hended
  | within m k v =>
    have hgoes : ¬ unread.Ends (blanks ++ '#' :: text) := by
      rw [Ends, hcut]
      refine not_or.mpr ⟨fun hnil => ?_, not_or.mpr ⟨hdelim, hended⟩⟩
      cases trim_eq_nil.mp hnil '#' (List.mem_append_right _ (List.mem_cons_self ..))
    rw [takeLine, if_neg hgoes, joined, hcut, if_neg fun hne => hne hblank]
    refine ⟨trivial, ?_⟩
    rw [Reading.stored, Reading.stored, trimmed_append hblank]

theorem takeLine_entries (hvalid : l.Valid) (hs : s.Open) :
    (unread.takeLine s l.text).Open ∧ (unread.takeLine s l.text).stored = s.stored.insertMany l.entries := by
  cases l with
  | setting key value note =>
    rw [SettingLine.text, takeLine_setting hvalid hs]
    exact ⟨trivial, Std.ExtTreeMap.insertMany_list_singleton.symm⟩
  | blank blanks => exact takeLine_blank hvalid.2 hs
  | remark blanks text => exact takeLine_remark hvalid.2 hs

theorem taken_entries {lines : List SettingLine} (hvalid : ∀ l ∈ lines, l.Valid) (hs : s.Open) :
    ((lines.map SettingLine.text).foldl unread.takeLine s).stored =
      s.stored.insertMany (lines.flatMap SettingLine.entries) := by
  induction lines generalizing s with
  | nil => rfl
  | cons l lines ih =>
    obtain ⟨hopen, hstored⟩ := takeLine_entries (hvalid l (List.mem_cons_self ..)) hs
    rw [List.map_cons, List.foldl_cons, ih (fun x hx => hvalid x (List.mem_cons_of_mem l hx)) hopen, hstored,
      List.flatMap_cons]
    simp only [Std.ExtTreeMap.insertMany_list_eq_foldl, List.foldl_append]

end ConfigFile

theorem SettingLine.Valid.line {l : SettingLine} (h : l.Valid) : '\n' ∉ l.text := by
  cases l with
  | setting key value note =>
    have hline := h.1
    simp only [List.mem_append, not_or] at hline
    simp only [SettingLine.text, List.mem_append, List.mem_cons, not_or]
    exact ⟨hline.1.1, by decide, hline.1.2, hline.2⟩
  | blank blanks => exact h.1
  | remark blanks text =>
    have hline := h.1
    simp only [List.mem_append, not_or] at hline
    simp only [SettingLine.text, List.mem_append, List.mem_cons, not_or]
    exact ⟨hline.1, by decide, hline.2⟩

/-- **A file of settings takes effect as one assignment after the other**, whatever blank lines and remarks there
are between them. -/
theorem settings_read (lines : List SettingLine) (hvalid : ∀ l ∈ lines, l.Valid) (garbage : List Char → Int) (g : FtpserverConfig) :
    initConfig (some (lines.flatMap fun l => l.text ++ ['\n'])) garbage g =
      (true, (lines.flatMap SettingLine.entries).foldl (FtpserverConfig.assign garbage) g) := by
  have hlines : ∀ t ∈ lines.map SettingLine.text, '\n' ∉ t := by
    intro t ht
    obtain ⟨l, hl, rfl⟩ := List.mem_map.mp ht
    exact (hvalid l hl).line
  have hfile : (lines.flatMap fun l => l.text ++ ['\n']) = ConfigFile.fileText (lines.map SettingLine.text) [] := by
    rw [ConfigFile.fileText, List.append_nil, List.flatMap_map]
  have hopen : (ConfigFile.Reading.between ConfigFile.unread.myContents).Open := trivial
  rw [initConfig, ConfigFile.ofFile, Option.map_some, hfile,
    ConfigFile.load_lines ConfigFile.unread_sound hlines List.not_mem_nil, ConfigFile.taken, if_pos rfl,
    List.append_nil, ConfigFile.taken_entries hvalid hopen]
  dsimp only
  have hread := readFrom_insertMany ConfigFile.unread garbage g (lines.flatMap SettingLine.entries)
  rw [readFrom_empty ConfigFile.unread garbage g rfl] at hread
  exact congrArg (Prod.mk true) hread

/-- What the sessions read of the settings. -/
def FtpserverConfig.sessions (g : FtpserverConfig) : Config where
  serverLanIp := g.serverLanIp
  serverWanIp := g.serverWanIp
  initPath := g.initPath
  startPort := g.startPort
  endPort := g.endPort

/-- The lines of `conf/ftp.conf`, which end in a carriage return as well. -/
def shippedLines : List SettingLine :=
  [.setting "server_home ".toList " ./\r".toList [],
    .setting "server_log_config_file ".toList " conf/log4cplus.ftp_server.conf.release\r".toList [],
    .setting "session_thread_num ".toList " 19\r".toList [], .setting "disk_thread_num ".toList " 19\r".toList [],
    .setting "client_life ".toList " 20\r".toList [], .setting "time_interval ".toList " 10\r".toList [],
    .setting "server_port ".toList " 2123\r".toList [], .setting "server_LAN_ip ".toList " 127.0.0.1\r".toList [],
    .setting "server_WAN_ip ".toList " 127.0.0.1\r".toList [],
    .setting "init_path ".toList " /home/chentianjian/data/\r".toList [],
    .setting "start_port ".toList " 1024\r".toList [], .setting "end_port ".toList " 65536\r".toList []]

theorem settings_read_shipped :
    (initConfig (some (shippedLines.flatMap fun l => l.text ++ ['\n'])) (fun _ => 0) {}).2.sessions = Env.shipped.config ∧
      (initConfig (some (shippedLines.flatMap fun l => l.text ++ ['\n'])) (fun _ => 0) {}).2.sessionThreadNum = 19 := by
  rw [settings_read shippedLines (by decide +kernel) (fun _ => 0) {}]
  exact ⟨rfl, rfl⟩

end HyperTransfer

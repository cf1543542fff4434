/-
# GuestDos.Host.Home -- paths below the home directory

Where the configuration lives, and how the host spells absolute paths.

* `expandHome` -- `~` and `~/...` with the home directory in place of the tilde.
* `configDirectory`, `configFile` -- the configuration directory, ending with a slash, and the file.

Init only.
-/
import GuestDos.Text

namespace GuestDos.Host

set_option autoImplicit false

/-- Expands `~` and `~/...`; every other form, also `~user`, is left alone. -/
def expandHome (home : Option Text) (path : Text) : Text :=
  match home, path with
  | some home, ['~'] => home
  | some home, '~' :: '/' :: rest => home ++ '/' :: rest
  | _, _ => path

/-- An absolute path starts with a slash and names something below the root. -/
def isAbsolute : Text → Bool
  | '/' :: _ :: _ => true
  | _ => false

/-- Adds a slash at the end of a path that has none there. -/
def withTrailingSlash (path : Text) : Text :=
  if path.getLast? = some '/' then path else path ++ ['/']

/-- The directory that is made for the configuration file. -/
def configDirectoryToMake (home : Option Text) : Text :=
  expandHome home "~/.dosboot".toList

/-- The directory in which the configuration file is looked up. -/
def configDirectory (home : Option Text) : Text :=
  withTrailingSlash (configDirectoryToMake home)

/-- The name of the configuration file. -/
def configName : Text := "dosboot.conf".toList

/-- The full path of the configuration file. -/
def configFile (home : Option Text) : Text :=
  configDirectory home ++ configName

theorem getLast?_withTrailingSlash (path : Text) :
    (withTrailingSlash path).getLast? = some '/' := by
  unfold withTrailingSlash
  split <;> simp_all

end GuestDos.Host

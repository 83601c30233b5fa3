import PeripheralHost.Text.Hex

/-!
# Commands

A command code is the first octet of every payload, the same in a request and
in the reply that answers it. Codes have symbolic names for people who read
logs; a code without an entry in the table is a legal code and reads as
unknown. Four codes are also used by the controller on its own account, to
report key presses, touches, found cards and the state of the card slot.
-/

namespace PeripheralHost.Command

/-! ## Codes that carry events -/

/-- A key was pressed. -/
def keyPress : UInt8 := 0x32

/-- The panel was touched. -/
def touch : UInt8 := 0x3E

/-- A card search was started, or found a card. -/
def cardSearch : UInt8 := 0x46

/-- The state of the card slot. -/
def cardSlot : UInt8 := 0x4C

/-! ## Names -/

/-- Every code with a name, in increasing order. -/
def table : List (UInt8 × String) := [
  (0x11, "SET_COMM_MODE"),
  (0x12, "GET_NETWORK_MODE"),
  (0x17, "GET_SYSTEM_VERSION"),
  (0x18, "GET_HARDWARE_SERIAL_NUMBER"),
  (0x19, "GET_DEVICE_MODEL"),
  (0x1A, "GET_CUSTOMER_SERIAL_NUMBER"),
  (0x1B, "SET_CLOCK"),
  (0x1C, "GET_CLOCK"),
  (0x20, "BEEP"),
  (0x21, "BEEP_FREQUENCY"),
  (0x22, "LED_ON"),
  (0x23, "LED_OFF"),
  (0x24, "LED_FLASH"),
  (0x25, "SYSTEM_RESET"),
  (0x26, "SYSTEM_SHUTDOWN"),
  (0x28, "SET_TERMINAL_SERIAL_NUMBER"),
  (0x29, "GET_CHIP_SERIAL_NUMBER"),
  (0x2A, "ENABLE_SLEEP_MODE"),
  (0x2F, "ENTER_BOOT_OR_QUERY_STATE"),
  (0x30, "OPEN_KEYBOARD"),
  (0x31, "CLOSE_KEYBOARD"),
  (0x32, "READ_KEYBOARD_INPUT"),
  (0x33, "CLEAR_KEYBOARD_CACHE"),
  (0x34, "SET_KEYBOARD_SOUND"),
  (0x35, "SET_KEYBOARD_BACKLIGHT"),
  (0x3A, "OPEN_TP"),
  (0x3B, "CLOSE_TP"),
  (0x3C, "CHECK_TP_SUPPORT"),
  (0x3E, "GET_TOUCH_COORDINATE"),
  (0x3F, "SET_TOUCH_PARAMETER"),
  (0x40, "OPEN_MAGNETIC_STRIPE_CARD"),
  (0x41, "CLOSE_MAGNETIC_STRIPE_CARD"),
  (0x42, "CHECK_MAGNETIC_STRIPE_CARD"),
  (0x43, "READ_MAGNETIC_STRIPE_CARD_DATA"),
  (0x44, "CLEAR_MAGNETIC_STRIPE_CARD_DATA"),
  (0x45, "FORMAT_MAGNETIC_STRIPE_CARD_DATA"),
  (0x46, "SEARCH_CARD_START"),
  (0x47, "SEARCH_CARD_RESULT"),
  (0x48, "SEARCH_CARD_STOP"),
  (0x4A, "OPEN_IC_CARD_MODULE"),
  (0x4B, "CLOSE_IC_CARD_MODULE"),
  (0x4C, "CHECK_IC_STATUS"),
  (0x4D, "IC_CARD_RESET"),
  (0x4E, "IC_CARD_MODULE_POWER_OFF"),
  (0x4F, "IC_CARD_SEND_APDU_COMMAND"),
  (0x50, "ICC_OPEN_MODULE"),
  (0x51, "ICC_CLOSE_MODULE"),
  (0x52, "ICC_SEARCH_CARD_ACTIVATION"),
  (0x53, "ICC_SEND_APDU_COMMAND"),
  (0x54, "MIFARE_CARD_AUTHENTICATION"),
  (0x55, "MIFARE_CARD_OPERATION"),
  (0x5A, "SCAN_OPEN"),
  (0x5B, "SCAN_CLOSE"),
  (0x5C, "READ_SCAN_DATA"),
  (0x61, "CHECK_PRINTER_SUPPORT"),
  (0x62, "PRINTER_OPEN"),
  (0x63, "PRINTER_CLOSE"),
  (0x64, "QUERY_PRINTER_STATUS"),
  (0x65, "SET_PRINTER_GRAY"),
  (0x6B, "PAPER_FEED"),
  (0x6C, "PRINT_BITMAP_DATA"),
  (0x70, "KEYPAD_OPEN_PASSWORD"),
  (0x71, "KEYPAD_CLOSE_PASSWORD"),
  (0x72, "KEYPAD_GET_RANDOM_NUMBER"),
  (0x73, "KEYPAD_UPDATE_MASTER_KEY"),
  (0x74, "KEYPAD_UPDATE_WORK_KEY"),
  (0x75, "KEYPAD_ENCRYPT_DATA"),
  (0x76, "KEYPAD_ENCRYPT_MAGNETIC_STRIPE_DATA"),
  (0x77, "KEYPAD_CALCULATE_MAC"),
  (0x78, "KEYPAD_INPUT_ONLINE_PIN"),
  (0x7B, "KEYPAD_GEN_RSA_KEY_PAIR"),
  (0x7C, "KEYPAD_ENCRYPT_RSA_PRIVATE_KEY"),
  (0x7D, "KEYPAD_ENCRYPT_HARDWARE_SERIAL_NUMBER"),
  (0x84, "KEYPAD_CHECK_TRIGGER_STATUS"),
  (0x85, "KEYPAD_SET_TRIGGER_STATUS"),
  (0x86, "KEYPAD_RELEASE_TRIGGER"),
  (0x87, "KEYPAD_CHECK_KEY"),
  (0x95, "KEYPAD_SM3_HASH"),
  (0x96, "KEYPAD_DES"),
  (0x97, "KEYPAD_AES"),
  (0x98, "KEYPAD_SM4"),
  (0x99, "KEYPAD_SM2"),
  (0x9A, "KEYPAD_SM2_SIGN"),
  (0x9B, "KEYPAD_SM2_VERIFY"),
  (0xA0, "INTERNAL_AUTH"),
  (0xA1, "EXTERNAL_AUTH_DOWNLOAD_HARDWARE_SERIAL"),
  (0xA7, "EXTERNAL_AUTH_UNLOCK"),
  (0xA8, "EXTERNAL_AUTH_ENCRYPT_CHIP_ID"),
  (0xA9, "EXTERNAL_AUTH_RESET_BOOT"),
  (0xAA, "FILE_DOWNLOAD_START"),
  (0xAB, "FILE_DOWNLOAD")
]

/-- The symbolic name of a code. -/
def name (code : UInt8) : String := (table.lookup code).getD "UNKNOWN"

/-- A code as the log shows it: its name and, in brackets, the code itself. -/
def label (code : UInt8) : String := name code ++ "(" ++ Hex.tagged code ++ ")"

/-- No code is listed twice, so the order of the table is of no account. -/
theorem nodup_codes : (table.map (·.1)).Nodup := by decide

end PeripheralHost.Command

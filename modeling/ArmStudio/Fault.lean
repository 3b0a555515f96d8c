/-!
# Texts of hardware faults
-/

namespace ArmStudio.Fault

def peripheralTexts : List String :=
  ["NO ERROR", "DMA ERROR", "CAN2 TX ERROR", "CAN2 RX ERROR", "I2C2 TX ERROR", "I2C2 RX ERROR",
    "I2C3 TX ERROR", "I2C3 RX ERROR", "SPI1 TX ERROR", "SPI1 RX ERROR", "SPI1 TXRX ERROR",
    "USART3 TX ERROR", "USART3 RX ERROR", "OTG FS TX ERROR", "OTG FS RX ERROR"]

def hardwareTexts : List String :=
  ["NO ERROR", "ADS1115 ERROR", "MS42D ERROR", "OLED ERROR", "SERVO ERROR", "W25Q256 ERROR"]

def textIn (texts : List String) (code : Int) : String :=
  if code < 0 then "UNKNOWN ERROR" else (texts[code.toNat]?).getD "UNKNOWN ERROR"

def peripheralText (code : Int) : String := textIn peripheralTexts code

def hardwareText (code : Int) : String := textIn hardwareTexts code

end ArmStudio.Fault
